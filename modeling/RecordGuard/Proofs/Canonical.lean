import RecordGuard.Proofs.Lookup
import RecordGuard.Proofs.Segments

/-!
# Canonical objects

How the members of a canonical object are taken out and put in: what a look-up or a path leads to
is canonical (`IsCanonical.get?`, `IsCanonical.getSegments?`), and inserting canonical members
keeps the object canonical (`IsCanonical.foldl_insert`). Bringing a canonical value into canonical
form changes nothing (`canonical_of_isCanonical`). Of a given value it can be computed whether it is
canonical.
-/

namespace RecordGuard.Json.Value

theorem isCanonical_object_iff {members : List (String × Value)} :
    IsCanonical (.object members) ↔
      Entries.Ordered members ∧ ∀ member ∈ members, IsCanonical member.2 := by
  rw [← membersCanonical_iff]
  rfl

theorem IsCanonical.ordered {members : List (String × Value)} (h : IsCanonical (.object members)) :
    Entries.Ordered members := (isCanonical_object_iff.1 h).1

theorem IsCanonical.get? {members : List (String × Value)} (h : IsCanonical (.object members))
    {key : String} {v : Value} (hv : Entries.get? members key = some v) : v.IsCanonical :=
  (isCanonical_object_iff.1 h).2 _ (Entries.mem_of_get? hv)

theorem IsCanonical.member? {v : Value} (h : v.IsCanonical) {key : String} {child : Value}
    (hc : v.member? key = some child) : child.IsCanonical := by
  cases v with
  | object members => exact h.get? hc
  | _ => cases hc

theorem IsCanonical.getSegments? {v : Value} (h : v.IsCanonical) {keys : List String} {w : Value}
    (hw : Path.getSegments? v keys = some w) : w.IsCanonical := by
  induction keys generalizing v with
  | nil =>
    cases hw
    exact h
  | cons key keys ih =>
    rw [Path.getSegments?_cons] at hw
    obtain ⟨child, hchild, hw⟩ := Option.bind_eq_some_iff.1 hw
    exact ih (h.member? hchild) hw

theorem IsCanonical.insert {members : List (String × Value)} (h : IsCanonical (.object members))
    (key : String) {v : Value} (hv : v.IsCanonical) :
    IsCanonical (.object (Entries.insert members key v)) := by
  obtain ⟨hordered, hmembers⟩ := isCanonical_object_iff.1 h
  refine isCanonical_object_iff.2 ⟨Entries.ordered_insert hordered key v, fun member hm => ?_⟩
  rcases Entries.mem_insert hm with rfl | hm
  · exact hv
  · exact hmembers member hm

theorem IsCanonical.foldl_insert {members pairs : List (String × Value)}
    (h : IsCanonical (.object members)) (hp : ∀ pair ∈ pairs, IsCanonical pair.2) :
    IsCanonical (.object
      (pairs.foldl (fun members pair => Entries.insert members pair.1 pair.2) members)) := by
  obtain ⟨hordered, hmembers⟩ := isCanonical_object_iff.1 h
  refine isCanonical_object_iff.2 ⟨Entries.ordered_foldl_insert hordered pairs, fun member hm => ?_⟩
  rcases Entries.mem_foldl_insert hm with hm | hm
  · exact hp member hm
  · exact hmembers member hm

/-- A list of members whose keys come from an ordered list, each canonical, makes a canonical
object. -/
theorem isCanonical_of_sublist {members kept : List (String × Value)}
    (h : IsCanonical (.object members))
    (hkeys : (Entries.keys kept).Sublist (Entries.keys members))
    (hkept : ∀ member ∈ kept, IsCanonical member.2) : IsCanonical (.object kept) := by
  refine isCanonical_object_iff.2 ⟨Entries.ordered_iff_keys.2 ?_, hkept⟩
  have hordered := Entries.ordered_iff_keys.1 h.ordered
  exact hordered.sublist hkeys

/-! ### Canonical values are left as they are -/

mutual

theorem canonical_of_isCanonical : (v : Value) → v.IsCanonical → v.canonical = v
  | .null, _ => rfl
  | .bool _, _ => rfl
  | .number _, _ => rfl
  | .string _, _ => rfl
  | .array items, h => congrArg Value.array (canonicalItems_of_itemsCanonical items h)
  | .object members, h => by
    rw [canonical, canonicalMembers_of_membersCanonical members h.2,
      Entries.Ordered.ofList_eq h.1]

theorem canonicalItems_of_itemsCanonical :
    (vs : List Value) → ItemsCanonical vs → canonicalItems vs = vs
  | [], _ => rfl
  | v :: vs, h => by
    rw [canonicalItems, canonical_of_isCanonical v h.1, canonicalItems_of_itemsCanonical vs h.2]

theorem canonicalMembers_of_membersCanonical :
    (ms : List (String × Value)) → MembersCanonical ms → canonicalMembers ms = ms
  | [], _ => rfl
  | (_, v) :: ms, h => by
    rw [canonicalMembers, canonical_of_isCanonical v h.1,
      canonicalMembers_of_membersCanonical ms h.2]

end

/-! ### Deciding -/

mutual

/-- Decides whether a value is canonical. -/
def decideIsCanonical : (v : Value) → Decidable v.IsCanonical
  | .null => .isTrue trivial
  | .bool _ => .isTrue trivial
  | .number _ => .isTrue trivial
  | .string _ => .isTrue trivial
  | .array items => decideItemsCanonical items
  | .object members =>
    @instDecidableAnd _ _ (inferInstanceAs (Decidable (List.Pairwise _ members)))
      (decideMembersCanonical members)
termination_by structural v => v

/-- Decides whether every item is canonical. -/
def decideItemsCanonical : (vs : List Value) → Decidable (ItemsCanonical vs)
  | [] => .isTrue trivial
  | v :: vs => @instDecidableAnd _ _ (decideIsCanonical v) (decideItemsCanonical vs)
termination_by structural vs => vs

/-- Decides whether the value of every member is canonical. -/
def decideMembersCanonical : (ms : List (String × Value)) → Decidable (MembersCanonical ms)
  | [] => .isTrue trivial
  | (_, v) :: ms => @instDecidableAnd _ _ (decideIsCanonical v) (decideMembersCanonical ms)
termination_by structural ms => ms

end

instance (v : Value) : Decidable v.IsCanonical := decideIsCanonical v

end RecordGuard.Json.Value
