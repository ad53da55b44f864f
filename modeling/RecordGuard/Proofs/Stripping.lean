import RecordGuard.Proofs.Canonical
import RecordGuard.Proofs.Masks

/-!
# What stripping leaves

`get?_stripMembers` says what stripping does to every member of an object. A path that the mask
removes leads nowhere in what is left (`getSegments?_stripValue`), and what is left of a canonical
value is canonical (`isCanonical_stripValue`).
-/

namespace RecordGuard.Mask

open Json (Value)
open Json.Value (IsCanonical ItemsCanonical MembersCanonical)

variable (mask : Mask) (reserved : String)

theorem get?_stripMembers (path : String) (ms : List (String × Value)) (key : String) :
    Entries.get? (mask.stripMembers reserved path ms) key =
      if isReserved reserved key then Entries.get? ms key
      else if mask.removes (Path.join path key) then none
      else (Entries.get? ms key).map (mask.stripValue reserved (Path.join path key)) := by
  induction ms with
  | nil => simp [stripMembers, Entries.get?]
  | cons m ms ih =>
    obtain ⟨k, v⟩ := m
    by_cases hk : k = key
    · subst hk
      rw [stripMembers]
      split_ifs at ih ⊢
      · simp [Entries.get?]
      · exact ih
      · simp [Entries.get?]
    · rw [Entries.get?_cons, if_neg hk, ← ih, stripMembers]
      split_ifs <;> simp [Entries.get?, hk]

/-- A path that the mask removes, behind no reserved key, leads nowhere in what is left. -/
theorem getSegments?_stripValue {path : String} {keys : List String} (hk : keys ≠ [])
    (hr : ∀ key ∈ keys, isReserved reserved key = false)
    (hp : mask.removes (Path.walk path keys) = true) (v : Value) :
    Path.getSegments? (mask.stripValue reserved path v) keys = none := by
  induction keys generalizing path v with
  | nil => exact absurd rfl hk
  | cons key keys ih =>
    cases v with
    | object members =>
      rw [Path.getSegments?_cons, stripValue, Value.member?, Value.members?, Option.bind_some,
        get?_stripMembers, hr key List.mem_cons_self, if_neg Bool.false_ne_true]
      split_ifs with hrem
      · rfl
      · cases hv : Entries.get? members key with
        | none => rfl
        | some child =>
          have hne : keys ≠ [] := fun he => hrem (by simpa [he] using hp)
          exact ih hne (fun k h => hr k (List.mem_cons_of_mem _ h)) hp child
    | _ => rfl

/-! ### What is left is canonical -/

theorem keys_stripMembers_sublist (path : String) (ms : List (String × Value)) :
    (Entries.keys (mask.stripMembers reserved path ms)).Sublist (Entries.keys ms) := by
  induction ms with
  | nil => exact List.Sublist.refl _
  | cons m ms ih =>
    obtain ⟨k, v⟩ := m
    rw [stripMembers]
    split_ifs
    · exact ih.cons_cons k
    · exact ih.cons k
    · exact ih.cons_cons k

mutual

theorem isCanonical_stripValue (path : String) :
    (v : Value) → v.IsCanonical → (mask.stripValue reserved path v).IsCanonical
  | .null, _ => trivial
  | .bool _, _ => trivial
  | .number _, _ => trivial
  | .string _, _ => trivial
  | .array items, h => itemsCanonical_stripItems path items h
  | .object members, h =>
    Value.isCanonical_of_sublist h (mask.keys_stripMembers_sublist reserved path members)
      (Value.membersCanonical_iff.1 (membersCanonical_stripMembers path members h.2))

theorem itemsCanonical_stripItems (path : String) :
    (vs : List Value) → ItemsCanonical vs → ItemsCanonical (mask.stripItems reserved path vs)
  | [], _ => trivial
  | v :: vs, h => ⟨isCanonical_stripValue path v h.1, itemsCanonical_stripItems path vs h.2⟩

theorem membersCanonical_stripMembers (path : String) : (ms : List (String × Value)) →
    MembersCanonical ms → MembersCanonical (mask.stripMembers reserved path ms)
  | [], _ => trivial
  | (key, v) :: ms, h => by
    rw [stripMembers]
    split_ifs
    · exact ⟨h.1, membersCanonical_stripMembers path ms h.2⟩
    · exact membersCanonical_stripMembers path ms h.2
    · exact ⟨isCanonical_stripValue _ v h.1, membersCanonical_stripMembers path ms h.2⟩

end

end RecordGuard.Mask
