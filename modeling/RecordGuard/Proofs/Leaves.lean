import RecordGuard.Proofs.Canonical
import RecordGuard.Proofs.Stripping
import RecordGuard.Selection

/-!
# The leaves of a document

The leaves of a value are its scalars, each with the keys that lead to it, in the order of the
document; the place of an item in an array does not count. Stripping keeps the leaves that the mask
does not hide (`Mask.leaves_stripValue`), and a selection that lists what it shows keeps the leaves
that its paths show (`Selection.leaves_showValue`).
-/

namespace RecordGuard

open Json (Value)

/-- A scalar with the keys that lead to it. -/
abbrev Leaf := List String × Value

/-- A leaf of a member, seen from the object. -/
def Leaf.under (key : String) (leaf : Leaf) : Leaf := (key :: leaf.1, leaf.2)

namespace Json.Value

mutual

/-- The scalars of a value with the keys that lead to them. -/
def leaves : Value → List Leaf
  | .array items => leavesOfItems items
  | .object members => leavesOfMembers members
  | .null => [([], .null)]
  | .bool b => [([], .bool b)]
  | .number n => [([], .number n)]
  | .string s => [([], .string s)]
termination_by structural v => v

/-- The leaves of items. -/
def leavesOfItems : List Value → List Leaf
  | [] => []
  | v :: vs => leaves v ++ leavesOfItems vs
termination_by structural vs => vs

/-- The leaves of members. -/
def leavesOfMembers : List (String × Value) → List Leaf
  | [] => []
  | (key, v) :: ms => (leaves v).map (Leaf.under key) ++ leavesOfMembers ms
termination_by structural ms => ms

end

@[simp] theorem leaves_object (members : List (String × Value)) :
    leaves (.object members) = leavesOfMembers members := rfl

theorem leaves_of_not_isContainer {v : Value} (h : v.isContainer = false) :
    v.leaves = [([], v)] := by
  cases v <;> first | rfl | cases h

theorem leavesOfMembers_append (ms ns : List (String × Value)) :
    leavesOfMembers (ms ++ ns) = leavesOfMembers ms ++ leavesOfMembers ns := by
  induction ms with
  | nil => rfl
  | cons m ms ih =>
    obtain ⟨key, v⟩ := m
    rw [List.cons_append, leavesOfMembers, leavesOfMembers, ih, List.append_assoc]

/-- Every leaf of members lies under one of their keys. -/
theorem exists_of_mem_leavesOfMembers {ms : List (String × Value)} {leaf : Leaf}
    (h : leaf ∈ leavesOfMembers ms) :
    ∃ member ∈ ms, ∃ inner ∈ member.2.leaves, leaf = inner.under member.1 := by
  induction ms with
  | nil => cases h
  | cons m ms ih =>
    rcases List.mem_append.1 h with h | h
    · obtain ⟨inner, hinner, rfl⟩ := List.mem_map.1 h
      exact ⟨m, List.mem_cons_self, inner, hinner, rfl⟩
    · obtain ⟨member, hm, inner, hinner, heq⟩ := ih h
      exact ⟨member, List.mem_cons_of_mem _ hm, inner, hinner, heq⟩

theorem filter_map_under (keep : List String → Bool) (key : String) (leaves : List Leaf) :
    (leaves.map (Leaf.under key)).filter (fun leaf => keep leaf.1) =
      (leaves.filter fun leaf => keep (key :: leaf.1)).map (Leaf.under key) :=
  List.filter_map

/-- A stricter test keeps a part of what a test keeps. -/
theorem filter_sublist_filter {α : Type} {as : List α} {p q : α → Bool}
    (h : ∀ a ∈ as, p a = true → q a = true) : (as.filter p).Sublist (as.filter q) := by
  have heq : as.filter p = (as.filter q).filter p := by
    rw [List.filter_filter]
    refine List.filter_congr fun a ha => ?_
    cases hp : p a with
    | false => rfl
    | true => rw [h a ha hp]; rfl
  rw [heq]
  exact List.filter_sublist

end Json.Value

open Json.Value (leaves leavesOfItems leavesOfMembers)

/-! ### Stripping -/

namespace Mask

variable (mask : Mask) (reserved : String)

/-- Whether stripping the value at a path deletes what the keys lead to. -/
def hides (path : String) : List String → Bool
  | [] => false
  | key :: keys =>
    !isReserved reserved key &&
      (mask.removes (Path.join path key) || hides (Path.join path key) keys)

mutual

/-- Stripping keeps the leaves that are not hidden. -/
theorem leaves_stripValue (path : String) : (v : Value) →
    leaves (mask.stripValue reserved path v) =
      (leaves v).filter fun leaf => !mask.hides reserved path leaf.1
  | .null => rfl
  | .bool _ => rfl
  | .number _ => rfl
  | .string _ => rfl
  | .array items => leaves_stripItems path items
  | .object members => leaves_stripMembers path members

theorem leaves_stripItems (path : String) : (vs : List Value) →
    leavesOfItems (mask.stripItems reserved path vs) =
      (leavesOfItems vs).filter fun leaf => !mask.hides reserved path leaf.1
  | [] => rfl
  | v :: vs => by
    rw [stripItems, leavesOfItems, leavesOfItems, List.filter_append, leaves_stripValue path v,
      leaves_stripItems path vs]

theorem leaves_stripMembers (path : String) : (ms : List (String × Value)) →
    leavesOfMembers (mask.stripMembers reserved path ms) =
      (leavesOfMembers ms).filter fun leaf => !mask.hides reserved path leaf.1
  | [] => rfl
  | (key, v) :: ms => by
    have hrest := leaves_stripMembers path ms
    rw [stripMembers, leavesOfMembers, List.filter_append, ← hrest,
      Json.Value.filter_map_under fun keys => !mask.hides reserved path keys]
    simp only [hides]
    by_cases hr : isReserved reserved key = true
    · simp [hr, leavesOfMembers, List.filter_eq_self.2]
    · by_cases hrem : mask.removes (Path.join path key) = true
      · simp [hr, hrem]
      · simp [hr, hrem, leavesOfMembers, leaves_stripValue (Path.join path key) v]

end

end Mask

/-! ### Showing -/

namespace Selection

variable (paths : List String)

/-- Whether the paths show what the keys lead to from the value at a path. -/
def shows (path : String) : List String → Bool
  | [] => false
  | key :: keys =>
    paths.contains (Path.join path key) ||
      (someBelow paths (Path.join path key) && shows (Path.join path key) keys)

mutual

/-- Of an object or an array the paths keep the leaves that they show. -/
theorem leaves_showValue (path : String) : (v : Value) → v.isContainer = true →
    leaves (showValue paths path v) = (leaves v).filter fun leaf => shows paths path leaf.1
  | .array items, _ => leaves_showItems path items
  | .object members, _ => leaves_showMembers path members

theorem leaves_showItems (path : String) : (vs : List Value) →
    leavesOfItems (showItems paths path vs) =
      (leavesOfItems vs).filter fun leaf => shows paths path leaf.1
  | [] => rfl
  | v :: vs => by
    have hrest := leaves_showItems path vs
    rw [showItems, leavesOfItems, List.filter_append, ← hrest]
    cases hv : v.isContainer with
    | true => rw [if_pos rfl, leavesOfItems, leaves_showValue path v hv]
    | false => simp [Json.Value.leaves_of_not_isContainer hv, shows]

theorem leaves_showMembers (path : String) : (ms : List (String × Value)) →
    leavesOfMembers (showMembers paths path ms) =
      (leavesOfMembers ms).filter fun leaf => shows paths path leaf.1
  | [] => rfl
  | (key, v) :: ms => by
    have hrest := leaves_showMembers path ms
    rw [showMembers, leavesOfMembers, List.filter_append, ← hrest,
      Json.Value.filter_map_under (shows paths path)]
    simp only [shows]
    cases hc : paths.contains (Path.join path key) with
    | true => simp [leavesOfMembers, List.filter_eq_self.2]
    | false =>
      cases hb : someBelow paths (Path.join path key) with
      | false => simp
      | true =>
        cases hv : v.isContainer with
        | true => simp [leavesOfMembers, leaves_showValue (Path.join path key) v hv]
        | false => simp [Json.Value.leaves_of_not_isContainer hv, shows]

end

end Selection

end RecordGuard
