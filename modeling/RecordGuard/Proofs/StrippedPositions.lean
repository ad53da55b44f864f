import Mathlib.Data.List.TakeWhile
import RecordGuard.Proofs.Leaves
import RecordGuard.Proofs.Positions

/-!
# The positions that stripping deletes

`at?_stripValue` says what stripping leaves at every position of a value, and
`mem_strippedPaths_iff` which paths it reports: those of the members that its walk meets and the
mask removes. `StripsBy` puts both together, for a given way to make a path of the keys that lead to
a member.

The walk makes paths by `Path.join`, for which the empty path is that of the document. So it gives
what stands behind an empty first key the paths of the document's own members, and a mask reaches
none of it by its dotted path. `strip_deletes_iff` says that stripping deletes by dotted paths
exactly where nothing is met behind such a key.
-/

namespace RecordGuard

open Json (Value)
open Json.Value (IsCanonical ItemsCanonical MembersCanonical)

namespace Mask

variable (mask other : Mask) (reserved : String)

/-! ### What is left at a position -/

theorem getElem?_stripItems (path : String) (vs : List Value) (place : Nat) :
    (mask.stripItems reserved path vs)[place]? =
      vs[place]?.map (mask.stripValue reserved path) := by
  induction vs generalizing place with
  | nil => rfl
  | cons v vs ih =>
    cases place with
    | zero => rfl
    | succ place => exact ih place

theorem item?_stripValue (path : String) (v : Value) (place : Nat) :
    (mask.stripValue reserved path v).item? place =
      (v.item? place).map (mask.stripValue reserved path) := by
  cases v with
  | array items => exact getElem?_stripItems mask reserved path items place
  | _ => rfl

/-- What stripping the value at a path makes of the value that keys lead to. -/
def stripBehind (path : String) (keys : List String) (v : Value) : Value :=
  if keys.any (isReserved reserved) then v else mask.stripValue reserved (Path.walk path keys) v

theorem stripBehind_of_isReserved {key : String} (hr : isReserved reserved key = true)
    (path : String) (keys : List String) : mask.stripBehind reserved path (key :: keys) = id := by
  funext v
  simp [stripBehind, hr]

theorem stripBehind_cons {key : String} (hr : isReserved reserved key = false) (path : String)
    (keys : List String) : mask.stripBehind reserved path (key :: keys) =
      mask.stripBehind reserved (Path.join path key) keys := by
  funext v
  simp [stripBehind, hr]

/-- At a position that is not hidden stands what stripping makes of the value there. -/
theorem at?_stripValue (path : String) (v : Value) (position : Position) :
    (mask.stripValue reserved path v).at? position =
      if mask.hides reserved path position.keys then none
      else (v.at? position).map (mask.stripBehind reserved path position.keys) := by
  induction position generalizing path v with
  | nil => rfl
  | cons step rest ih =>
    cases step with
    | member key =>
      cases v with
      | object members =>
        have hmember : (mask.stripValue reserved path (.object members)).member? key =
            Entries.get? (mask.stripMembers reserved path members) key := rfl
        have hbefore : (Value.object members).member? key = Entries.get? members key := rfl
        rw [Value.at?_member, Value.at?_member, hmember, hbefore, get?_stripMembers, Position.keys,
          hides]
        cases hr : isReserved reserved key with
        | true =>
          rw [stripBehind_of_isReserved mask reserved hr]
          simp
        | false =>
          rw [stripBehind_cons mask reserved hr]
          cases hrem : mask.removes (Path.join path key) with
          | true => simp
          | false => cases Entries.get? members key <;> simp [ih]
      | _ => split_ifs <;> rfl
    | item place =>
      rw [Value.at?_item, Value.at?_item, item?_stripValue, Position.keys]
      cases v.item? place with
      | none => simp
      | some child => exact ih path child

/-- The keys in front of the first reserved one. -/
def visited (keys : List String) : List String :=
  keys.takeWhile fun key => !isReserved reserved key

/-- Hidden is what a removed path is met on the way to, in front of the first reserved key. -/
theorem hides_eq_false_iff (path : String) (keys : List String) :
    mask.hides reserved path keys = false ↔
      ∀ met ∈ Path.trail path (visited reserved keys), mask.removes met = false := by
  induction keys generalizing path with
  | nil => simp [hides, visited, Path.trail]
  | cons key keys ih =>
    by_cases hr : isReserved reserved key = true
    · simp [hides, visited, hr, Path.trail]
    · have hvisited : visited reserved (key :: keys) = key :: visited reserved keys := by
        simp [visited, hr]
      rw [hides, hvisited, Path.trail, List.forall_mem_cons, ← ih]
      simp [hr]

/-! ### What is reported -/

/-- The walk through a value meets a member at the position: the member is there, and no key on the
way is reserved. -/
def Meets (v : Value) (position : Position) : Prop :=
  position.EndsInKey ∧ (v.at? position).isSome ∧
    ∀ key ∈ position.keys, isReserved reserved key = false

/-- The walk through the value at a path meets a member with a path that the mask removes. -/
def Loses (path : String) (v : Value) (lost : String) : Prop :=
  ∃ position, Meets reserved v position ∧ Path.walk path position.keys = lost ∧
    mask.removes lost = true

variable {mask other reserved}

theorem not_meets_nil {v : Value} : ¬Meets reserved v [] :=
  fun h => Position.not_endsInKey_nil h.1

theorem meets_member_iff {v : Value} {key : String} {rest : Position} :
    Meets reserved v (.member key :: rest) ↔ isReserved reserved key = false ∧
      ∃ child, v.member? key = some child ∧ (rest = [] ∨ Meets reserved child rest) := by
  rw [Meets, Position.endsInKey_cons_iff, Value.at?_member, Position.keys, List.forall_mem_cons]
  cases v.member? key with
  | none => simp
  | some child =>
    simp only [Option.bind_some, Option.some.injEq, exists_eq_left', Meets]
    constructor
    · rintro ⟨⟨rfl, -⟩ | hends, hsome, hr, hkeys⟩
      · exact ⟨hr, Or.inl rfl⟩
      · exact ⟨hr, Or.inr ⟨hends, hsome, hkeys⟩⟩
    · rintro ⟨hr, rfl | ⟨hends, hsome, hkeys⟩⟩
      · exact ⟨Or.inl ⟨rfl, key, rfl⟩, rfl, hr, by simp [Position.keys]⟩
      · exact ⟨Or.inr hends, hsome, hr, hkeys⟩

theorem meets_item_iff {v : Value} {place : Nat} {rest : Position} :
    Meets reserved v (.item place :: rest) ↔
      ∃ child, v.item? place = some child ∧ Meets reserved child rest := by
  rw [Meets, Position.endsInKey_cons_iff, Value.at?_item, Position.keys]
  cases v.item? place with
  | none => simp
  | some child => simp [Meets]

theorem not_loses_of_not_isContainer {v : Value} (h : v.isContainer = false) {path lost : String} :
    ¬Loses mask reserved path v lost := by
  rintro ⟨position, ⟨hends, hsome, -⟩, -⟩
  cases position with
  | nil => exact Position.not_endsInKey_nil hends
  | cons step rest =>
    obtain ⟨w, hw⟩ := Option.isSome_iff_exists.1 hsome
    rw [Value.isContainer_of_at? hw] at h
    cases h

theorem loses_array_iff {path lost : String} {items : List Value} :
    Loses mask reserved path (.array items) lost ↔
      ∃ v ∈ items, Loses mask reserved path v lost := by
  constructor
  · rintro ⟨position, hmeets, hwalk, hrem⟩
    cases position with
    | nil => exact absurd hmeets not_meets_nil
    | cons step rest =>
      cases step with
      | member key =>
        obtain ⟨-, child, hchild, -⟩ := meets_member_iff.1 hmeets
        cases hchild
      | item place =>
        obtain ⟨child, hchild, hrest⟩ := meets_item_iff.1 hmeets
        have hitem : items[place]? = some child := hchild
        exact ⟨child, List.mem_of_getElem? hitem, rest, hrest, hwalk, hrem⟩
  · rintro ⟨v, hv, position, hmeets, hwalk, hrem⟩
    obtain ⟨place, hplace⟩ := List.mem_iff_getElem?.1 hv
    exact ⟨.item place :: position, meets_item_iff.2 ⟨v, hplace, hmeets⟩, hwalk, hrem⟩

theorem loses_object_iff {path lost : String} {members : List (String × Value)}
    (ho : Entries.Ordered members) :
    Loses mask reserved path (.object members) lost ↔
      ∃ member ∈ members, isReserved reserved member.1 = false ∧
        (Loses mask reserved (Path.join path member.1) member.2 lost ∨
          mask.removes (Path.join path member.1) = true ∧ lost = Path.join path member.1) := by
  constructor
  · rintro ⟨position, hmeets, hwalk, hrem⟩
    cases position with
    | nil => exact absurd hmeets not_meets_nil
    | cons step rest =>
      cases step with
      | member key =>
        obtain ⟨hr, child, hchild, hrest⟩ := meets_member_iff.1 hmeets
        have hget : Entries.get? members key = some child := hchild
        refine ⟨(key, child), Entries.mem_of_get? hget, hr, ?_⟩
        rcases hrest with rfl | hrest
        · obtain rfl : Path.join path key = lost := hwalk
          exact Or.inr ⟨hrem, rfl⟩
        · exact Or.inl ⟨rest, hrest, hwalk, hrem⟩
      | item place =>
        obtain ⟨child, hchild, -⟩ := meets_item_iff.1 hmeets
        cases hchild
  · rintro ⟨⟨key, v⟩, hm, hr, ⟨position, hmeets, hwalk, hrem⟩ | ⟨hrem, rfl⟩⟩
    · exact ⟨.member key :: position,
        meets_member_iff.2 ⟨hr, v, ho.get?_of_mem hm, Or.inr hmeets⟩, hwalk, hrem⟩
    · exact ⟨[.member key], meets_member_iff.2 ⟨hr, v, ho.get?_of_mem hm, Or.inl rfl⟩, rfl, hrem⟩

variable (mask reserved)

mutual

/-- The paths that are reported as deleted from a value are those of the members that the walk meets
and the mask removes. -/
theorem mem_strippedPaths_iff (path lost : String) : (v : Value) → v.IsCanonical →
    (lost ∈ mask.strippedPaths reserved path v ↔ Loses mask reserved path v lost)
  | .null, _ => iff_of_false List.not_mem_nil (not_loses_of_not_isContainer rfl)
  | .bool _, _ => iff_of_false List.not_mem_nil (not_loses_of_not_isContainer rfl)
  | .number _, _ => iff_of_false List.not_mem_nil (not_loses_of_not_isContainer rfl)
  | .string _, _ => iff_of_false List.not_mem_nil (not_loses_of_not_isContainer rfl)
  | .array items, h => by
    rw [loses_array_iff, strippedPaths, mem_strippedFromItems_iff path lost items h]
  | .object members, h => by
    rw [loses_object_iff h.1, strippedPaths, mem_strippedFromMembers_iff path lost members h.2]

theorem mem_strippedFromItems_iff (path lost : String) : (vs : List Value) → ItemsCanonical vs →
    (lost ∈ mask.strippedFromItems reserved path vs ↔
      ∃ v ∈ vs, Loses mask reserved path v lost)
  | [], _ => by simp [strippedFromItems]
  | v :: vs, h => by
    rw [strippedFromItems, List.mem_append, mem_strippedPaths_iff path lost v h.1,
      mem_strippedFromItems_iff path lost vs h.2]
    simp

theorem mem_strippedFromMembers_iff (path lost : String) : (ms : List (String × Value)) →
    MembersCanonical ms → (lost ∈ mask.strippedFromMembers reserved path ms ↔
      ∃ member ∈ ms, isReserved reserved member.1 = false ∧
        (Loses mask reserved (Path.join path member.1) member.2 lost ∨
          mask.removes (Path.join path member.1) = true ∧ lost = Path.join path member.1))
  | [], _ => by simp [strippedFromMembers]
  | (key, v) :: ms, h => by
    have hv := mem_strippedPaths_iff (Path.join path key) lost v h.1
    have hms := mem_strippedFromMembers_iff path lost ms h.2
    rw [strippedFromMembers]
    cases hr : isReserved reserved key with
    | true => simp [hms, hr]
    | false =>
      cases hrem : mask.removes (Path.join path key) with
      | true => simp [hms, hv, hr, hrem, or_assoc]
      | false => simp [hms, hv, hr, hrem]

end

/-! ### Stripping twice -/

mutual

/-- What is stripped is not changed by stripping it again. -/
theorem stripValue_stripValue (path : String) : (v : Value) →
    mask.stripValue reserved path (mask.stripValue reserved path v) =
      mask.stripValue reserved path v
  | .null => rfl
  | .bool _ => rfl
  | .number _ => rfl
  | .string _ => rfl
  | .array items => congrArg Value.array (stripItems_stripItems path items)
  | .object members => congrArg Value.object (stripMembers_stripMembers path members)

theorem stripItems_stripItems (path : String) : (vs : List Value) →
    mask.stripItems reserved path (mask.stripItems reserved path vs) =
      mask.stripItems reserved path vs
  | [] => rfl
  | v :: vs => by
    rw [stripItems, stripItems, stripValue_stripValue path v, stripItems_stripItems path vs]

theorem stripMembers_stripMembers (path : String) : (ms : List (String × Value)) →
    mask.stripMembers reserved path (mask.stripMembers reserved path ms) =
      mask.stripMembers reserved path ms
  | [] => rfl
  | (key, v) :: ms => by
    have hv := stripValue_stripValue (Path.join path key) v
    have hms := stripMembers_stripMembers path ms
    rw [stripMembers]
    split_ifs with hr hrem
    · rw [stripMembers, if_pos hr, hms]
    · exact hms
    · rw [stripMembers, if_neg hr, if_neg hrem, hv, hms]

end

mutual

/-- Of two masks either may strip first. -/
theorem stripValue_comm (path : String) : (v : Value) →
    mask.stripValue reserved path (other.stripValue reserved path v) =
      other.stripValue reserved path (mask.stripValue reserved path v)
  | .null => rfl
  | .bool _ => rfl
  | .number _ => rfl
  | .string _ => rfl
  | .array items => congrArg Value.array (stripItems_comm path items)
  | .object members => congrArg Value.object (stripMembers_comm path members)

theorem stripItems_comm (path : String) : (vs : List Value) →
    mask.stripItems reserved path (other.stripItems reserved path vs) =
      other.stripItems reserved path (mask.stripItems reserved path vs)
  | [] => rfl
  | v :: vs => by
    rw [stripItems, stripItems, stripItems, stripItems, stripValue_comm path v,
      stripItems_comm path vs]

theorem stripMembers_comm (path : String) : (ms : List (String × Value)) →
    mask.stripMembers reserved path (other.stripMembers reserved path ms) =
      other.stripMembers reserved path (mask.stripMembers reserved path ms)
  | [] => rfl
  | (key, v) :: ms => by
    have hv := stripValue_comm (Path.join path key) v
    have hms := stripMembers_comm path ms
    by_cases hr : isReserved reserved key = true
    · simp [stripMembers, hr, hms]
    · by_cases hmask : mask.removes (Path.join path key) = true
      · by_cases hother : other.removes (Path.join path key) = true
        · simp [stripMembers, hr, hmask, hother, hms]
        · simp [stripMembers, hr, hmask, hother, hms]
      · by_cases hother : other.removes (Path.join path key) = true
        · simp [stripMembers, hr, hmask, hother, hms]
        · simp [stripMembers, hr, hmask, hother, hms, hv]

end

/-! ### Deleting by paths -/

theorem length_stripItems (path : String) (vs : List Value) :
    (mask.stripItems reserved path vs).length = vs.length := by
  induction vs with
  | nil => rfl
  | cons v vs ih => exact congrArg Nat.succ ih

theorem sameShape_stripBehind (path : String) (keys : List String) (v : Value) :
    v.SameShape (mask.stripBehind reserved path keys v) := by
  rw [stripBehind]
  split_ifs
  · exact v.sameShape_refl
  · cases v with
    | array items => exact ⟨_, rfl, length_stripItems mask reserved _ items⟩
    | object members => exact ⟨_, rfl⟩
    | _ => rfl

/-- Stripping deletes from a document exactly the members that the mask removes, if the path of a
member is made of the keys that lead to it in the given way. -/
structure StripsBy (pathOf : List String → String) (mask : Mask) (reserved : String)
    (document : Value) : Prop where
  /-- A position is left if no path on its way is removed, up to the first reserved key. -/
  isSome_at?_iff : ∀ position, ((mask.strip reserved document).1.at? position).isSome ↔
    (document.at? position).isSome ∧ ∀ front, front ≠ [] →
      front <+: visited reserved position.keys → mask.removes (pathOf front) = false
  /-- What is left keeps its shape. -/
  sameShape : ∀ position v w, document.at? position = some v →
    (mask.strip reserved document).1.at? position = some w → v.SameShape w
  /-- Behind a reserved key everything stays as it was. -/
  eq_of_isReserved : ∀ position v w, (∃ key ∈ position.keys, isReserved reserved key = true) →
    document.at? position = some v →
    (mask.strip reserved document).1.at? position = some w → w = v
  isCanonical : (mask.strip reserved document).1.IsCanonical
  nodup : (mask.strip reserved document).2.Nodup
  /-- Reported are the paths of the members that are met and removed. -/
  mem_iff : ∀ path, path ∈ (mask.strip reserved document).2 ↔
    ∃ position, Meets reserved document position ∧ pathOf position.keys = path ∧
      mask.removes path = true

variable {mask reserved}

theorem strip_of_isEmpty_eq_false (hne : mask.isEmpty = false) (reserved : String)
    (document : Value) : mask.strip reserved document =
      (mask.stripValue reserved "" document,
        distinct (mask.strippedPaths reserved "" document)) := by
  rw [strip, hne]
  exact if_neg Bool.false_ne_true

/-- Stripping deletes by the paths that its walk puts together. -/
theorem stripsBy_walk (hne : mask.isEmpty = false) {document : Value} (hc : document.IsCanonical) :
    StripsBy (Path.walk "") mask reserved document := by
  have hstrip := strip_of_isEmpty_eq_false hne reserved document
  have hleft : ∀ position v w, document.at? position = some v →
      (mask.stripValue reserved "" document).at? position = some w →
      w = mask.stripBehind reserved "" position.keys v := by
    intro position v w hv hw
    rw [at?_stripValue, hv] at hw
    split_ifs at hw
    exact (Option.some.inj hw).symm
  refine ⟨fun position => ?_, fun position v w hv hw => ?_, fun position v w hr hv hw => ?_, ?_, ?_,
    fun path => ?_⟩
  · have hvisible :=
      (hides_eq_false_iff mask reserved "" position.keys).trans Path.forall_mem_trail_iff
    rw [hstrip, at?_stripValue, ← hvisible]
    cases mask.hides reserved "" position.keys <;> simp
  · rw [hstrip] at hw
    rw [hleft position v w hv hw]
    exact sameShape_stripBehind mask reserved _ _ v
  · rw [hstrip] at hw
    rw [hleft position v w hv hw, stripBehind, if_pos (List.any_eq_true.2 hr)]
  · rw [hstrip]
    exact isCanonical_stripValue mask reserved "" document hc
  · rw [hstrip]
    exact nodup_distinct _
  · rw [hstrip, mem_distinct, mem_strippedPaths_iff mask reserved "" path document hc]
    rfl

theorem visited_of_forall {keys : List String} (h : ∀ key ∈ keys, isReserved reserved key = false) :
    visited reserved keys = keys :=
  List.takeWhile_eq_self_iff.2 fun key hkey => by simp [h key hkey]

/-- Of two ways to make paths one may take the place of the other if they make the same paths on
all ways into the document. -/
theorem StripsBy.congr {pathOf others : List String → String} {document : Value}
    (h : StripsBy pathOf mask reserved document)
    (heq : ∀ position, (document.at? position).isSome → ∀ front, front ≠ [] →
      front <+: visited reserved position.keys → pathOf front = others front) :
    StripsBy others mask reserved document := by
  refine ⟨fun position => ?_, h.sameShape, h.eq_of_isReserved, h.isCanonical, h.nodup,
    fun path => ?_⟩
  · rw [h.isSome_at?_iff]
    refine and_congr_right fun hsome => ?_
    refine forall_congr' fun front => forall_congr' fun hne => forall_congr' fun hfront => ?_
    rw [heq position hsome front hne hfront]
  · rw [h.mem_iff]
    refine exists_congr fun position => and_congr_right fun hmeets => ?_
    have hkeys : position.keys ≠ [] := by
      obtain ⟨front, key, rfl⟩ := hmeets.1
      simp [Position.keys]
    rw [heq position hmeets.2.1 position.keys hkeys
      (by rw [visited_of_forall hmeets.2.2])]

/-! ### Dotted paths -/

/-- The walk through the document meets nothing behind an empty first key. -/
def EndsAtEmptyKey (reserved : String) (document : Value) : Prop :=
  ∀ position, (document.at? position).isSome → ∀ key, position.keys = ["", key] →
    isReserved reserved key = true

theorem isReserved_empty_key (reserved : String) : isReserved reserved "" = false := by
  rw [isReserved, Bool.and_eq_false_iff]
  by_cases h : reserved = ""
  · left
    simp [h]
  · right
    rw [Bool.eq_false_iff]
    intro hprefix
    have hnil := List.prefix_nil.1 (List.isPrefixOf_iff_prefix.1 hprefix)
    exact h (String.toList_injective hnil)

/-- No position begins at an empty key of an object that has none. -/
theorem endsAtEmptyKey_object {members : List (String × Value)}
    (h : Entries.get? members "" = none) (reserved : String) :
    EndsAtEmptyKey reserved (.object members) := by
  intro position hsome key hkeys
  cases position with
  | nil => cases hkeys
  | cons step rest =>
    cases step with
    | member k =>
      obtain ⟨rfl, -⟩ := List.cons.inj hkeys
      have hmember : (Value.object members).member? "" = none := h
      rw [Value.at?_member, hmember] at hsome
      cases hsome
    | item place => cases hsome

/-- Where nothing is met behind an empty first key, the walk puts the keys together with dots. -/
theorem walk_eq_dotted {document : Value} (h : EndsAtEmptyKey reserved document)
    {position : Position} (hsome : (document.at? position).isSome) {front : List String}
    (hne : front ≠ []) (hfront : front <+: visited reserved position.keys) :
    Path.walk "" front = Path.dotted front := by
  obtain ⟨key, keys, rfl⟩ := List.exists_cons_of_ne_nil hne
  by_cases hkey : key = ""
  · subst hkey
    cases keys with
    | nil => simp [Path.dotted]
    | cons key keys =>
      -- the way to the second key is a position of its own, which ends at a reserved key
      have hkeys : ["", key] <+: position.keys :=
        (List.prefix_append ["", key] keys).trans (hfront.trans (List.takeWhile_prefix _))
      obtain ⟨part, hpart, hpartKeys⟩ := Position.exists_prefix_of_keys hkeys
      have hreserved := h part (Value.isSome_at?_of_prefix hpart hsome) key hpartKeys
      have hmem : key ∈ visited reserved position.keys := hfront.subset (by simp)
      have hnot := List.mem_takeWhile_imp hmem
      rw [hreserved] at hnot
      cases hnot
  · exact Path.walk_empty hkey keys

/-- A mask that names a member by its dotted path does not reach it behind an empty first key. -/
theorem exists_not_stripsBy_dotted {document : Value} (hc : document.IsCanonical)
    {position : Position} (hsome : (document.at? position).isSome) {key : String}
    (hkeys : position.keys = ["", key]) (hr : isReserved reserved key = false) :
    ∃ mask : Mask, mask.isEmpty = false ∧ ¬StripsBy Path.dotted mask reserved document := by
  refine ⟨⟨[(Path.dotted ["", key], false)]⟩, rfl, fun hdotted => ?_⟩
  have hwalk : StripsBy (Path.walk "") ⟨[(Path.dotted ["", key], false)]⟩ reserved document :=
    stripsBy_walk rfl hc
  have hdot : Path.dotted ["", key] = "." ++ key := by simp [Path.dotted]
  have hnonempty : "." ++ key ≠ "" := fun heq => by
    have hlength := congrArg String.length heq
    simp at hlength
  have hlonger : "." ++ key ≠ key := fun heq => by
    have hlength := congrArg String.length heq
    simp at hlength
  have hvisited : visited reserved position.keys = ["", key] := by
    rw [hkeys]
    exact visited_of_forall (by simp [hr, isReserved_empty_key])
  -- by its walk the mask removes nothing on the way, so that the position is left
  have hkept : ∀ met ∈ Path.trail "" ["", key],
      (Mask.mk [(Path.dotted ["", key], false)]).removes met = false := by
    simp [Path.trail, removes, isExclusive, get?, hdot, hnonempty, hlonger]
  have hleft := (hwalk.isSome_at?_iff position).2
    ⟨hsome, hvisited ▸ Path.forall_mem_trail_iff.1 hkept⟩
  have hremoved := ((hdotted.isSome_at?_iff position).1 hleft).2 ["", key]
    (List.cons_ne_nil _ _) (by rw [hvisited])
  simp [removes, isExclusive, get?] at hremoved

/-- Stripping deletes exactly the members that a mask removes, each by the path that the walk puts
together on the way. These are the dotted paths, whatever the mask, exactly if the walk meets
nothing behind an empty first key. Stripping again changes nothing, and of two masks either may
strip first. -/
theorem strip_deletes_iff (reserved : String) {document : Value} (hc : document.IsCanonical) :
    ((∀ mask : Mask, mask.isEmpty = false → StripsBy Path.dotted mask reserved document) ↔
        EndsAtEmptyKey reserved document) ∧
      (∀ mask : Mask, mask.isEmpty = false → StripsBy (Path.walk "") mask reserved document) ∧
      (∀ mask : Mask, (mask.strip reserved (mask.strip reserved document).1).1 =
        (mask.strip reserved document).1) ∧
      ∀ mask other : Mask, (mask.strip reserved (other.strip reserved document).1).1 =
        (other.strip reserved (mask.strip reserved document).1).1 := by
  refine ⟨⟨fun h position hsome key hkeys => ?_, fun h mask hne => ?_⟩,
    fun mask hne => stripsBy_walk hne hc, fun mask => ?_, fun mask other => ?_⟩
  · by_contra hr
    obtain ⟨mask, hne, hnot⟩ :=
      exists_not_stripsBy_dotted hc hsome hkeys (Bool.eq_false_iff.2 hr)
    exact hnot (h mask hne)
  · exact (stripsBy_walk hne hc).congr fun position hsome front hfront hprefix =>
      walk_eq_dotted h hsome hfront hprefix
  · cases hne : mask.isEmpty with
    | true => simp [strip, hne]
    | false =>
      rw [strip_of_isEmpty_eq_false hne, strip_of_isEmpty_eq_false hne]
      exact stripValue_stripValue mask reserved "" document
  · cases hmask : mask.isEmpty with
    | true => simp [strip, hmask]
    | false =>
      cases hother : other.isEmpty with
      | true => simp [strip, hother]
      | false =>
        simp only [strip_of_isEmpty_eq_false hmask, strip_of_isEmpty_eq_false hother]
        exact stripValue_comm mask reserved "" document

theorem strip_deletes_of_phones :
    let mask : Mask := ⟨[("phones.pin", false), ("secret", false)]⟩
    let document := Value.object [("_id", .object [("pin", .integer 1)]),
      ("phones", .array [.object [("number", .string "1"), ("pin", .string "0000")],
        .object [("pin", .string "1111")], .string "loose"]),
      ("secret", .object [("pin", .integer 2)])]
    document.IsCanonical ∧ EndsAtEmptyKey "_" document ∧
      StripsBy Path.dotted mask "_" document ∧
      mask.strip "_" document =
        (.object [("_id", .object [("pin", .integer 1)]),
          ("phones", .array [.object [("number", .string "1")], .object [], .string "loose"])],
          ["phones.pin", "secret"]) := by
  intro mask document
  have hc : document.IsCanonical := by decide
  have hends : EndsAtEmptyKey "_" document := endsAtEmptyKey_object rfl "_"
  exact ⟨hc, hends, (strip_deletes_iff "_" hc).1.2 hends mask rfl, rfl⟩

/-- The pin that a mask excludes by its path stays where it is, behind the empty key. -/
theorem pin_kept_of_empty_key :
    let mask : Mask := ⟨[(".pin", false)]⟩
    let document := Value.object [("", .object [("pin", .integer 1)])]
    mask.isEmpty = false ∧ document.IsCanonical ∧
      Path.get? document ".pin" = some (.integer 1) ∧ mask.removes ".pin" = true ∧
      mask.strip "_" document = (document, []) ∧ ¬StripsBy Path.dotted mask "_" document := by
  intro mask document
  have hget : Path.get? document ".pin" = some (.integer 1) := by rfl
  have hremoved : mask.removes (Path.dotted ["", "pin"]) = true := by decide +kernel
  refine ⟨rfl, by decide, hget, by decide, rfl, fun h => ?_⟩
  have hvisible := ((h.isSome_at?_iff [.member "", .member "pin"]).1 rfl).2 ["", "pin"]
    (List.cons_ne_nil _ _) (by decide +kernel)
  rw [hremoved] at hvisible
  cases hvisible

end Mask

end RecordGuard
