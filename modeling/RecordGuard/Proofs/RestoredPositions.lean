import RecordGuard.Proofs.Positions
import RecordGuard.Proofs.Restoring

/-!
# The positions that restoring reverts

Restoring walks a payload and what is stored beside it at once: members by key, items by place. At a
position that the mask protects, the two agree afterwards, or the restored payload has nothing there
(`agree_at?_restoreValue`); at a position that the mask leaves open, the payload keeps what it has
(`at?_restoreValue_of_isOpen`). Both are inductions on the position that read `Mask.access` off the
paths on the way. `Protects` and `LeavesOpen` say the same of the mask by dotted paths, and
`restore_reverts` puts it all together.
-/

namespace RecordGuard

open Json (Value)
open Json.Value (agree isCanonical_of_getElem?)

namespace Mask

variable {mask : Mask} {reserved : String}

/-! ### Into the stored document -/

theorem bind_at?_member (stored : Option Value) (key : String) (rest : Position) :
    stored.bind (Value.at? · (.member key :: rest)) =
      (Entries.get? (storedMembers stored) key).bind (Value.at? · rest) := by
  cases stored with
  | none => rfl
  | some s => cases s <;> rfl

theorem bind_at?_item (stored : Option Value) (place : Nat) (rest : Position) :
    stored.bind (Value.at? · (.item place :: rest)) =
      (storedItems stored)[place]?.bind (Value.at? · rest) := by
  cases stored with
  | none => rfl
  | some s => cases s <;> rfl

theorem getElem?_restoreItems (path : String) (stored vs : List Value) (place : Nat) :
    (mask.restoreItems reserved path stored vs)[place]? =
      vs[place]?.map (mask.restoreValue reserved path stored[place]?) := by
  induction vs generalizing stored place with
  | nil => rfl
  | cons v vs ih =>
    cases place with
    | zero => cases stored <;> rfl
    | succ place => cases stored <;> exact ih _ place

/-- Items are restored one by one, each beside the stored item in its place. -/
theorem item?_restoreValue (path : String) (stored : Option Value) (v : Value) (place : Nat) :
    (mask.restoreValue reserved path stored v).item? place =
      (v.item? place).map (mask.restoreValue reserved path (storedItems stored)[place]?) := by
  cases v with
  | array items => exact getElem?_restoreItems path (storedItems stored) items place
  | _ => rfl

/-! ### Protected positions -/

/-- A member whose value is reverted agrees with what is stored. -/
theorem agree_outcome_of_revert {key path : String} {v : Value} {stored : Option Value}
    (h : mask.verdict reserved key path v stored = revert v stored) :
    agree (mask.outcome reserved key path v stored) stored = true := by
  rw [outcome, h]
  cases stored with
  | none => rfl
  | some s =>
    rw [revert]
    split_ifs with hs
    · exact hs
    · exact Value.same_refl s

/-- What becomes of a member that may not be written as it comes: it agrees with what is stored, or
it is walked, or the payload leaves it out of the document itself. -/
theorem member?_restoreValue_cases {path : String} {stored : Option Value}
    {ms : List (String × Value)} (hm : Entries.Ordered ms)
    (hs : Entries.Ordered (storedMembers stored)) {key : String}
    (hr : isReserved reserved key = false) (hacc : mask.access (Path.join path key) ≠ .allowed) :
    agree ((mask.restoreValue reserved path stored (.object ms)).member? key)
        (Entries.get? (storedMembers stored) key) = true ∨
      (∃ child, Entries.get? ms key = some child ∧
        mask.access (Path.join path key) = .descend ∧
        (mask.restoreValue reserved path stored (.object ms)).member? key =
          some (mask.restoreValue reserved (Path.join path key)
            (Entries.get? (storedMembers stored) key) child)) ∨
      path = "" ∧ Entries.get? ms key = none ∧
        (mask.restoreValue reserved path stored (.object ms)).member? key = none := by
  cases hv : Entries.get? ms key with
  | none =>
    rw [member?_restoreValue_of_missing hm hs hv]
    by_cases hpath : path = ""
    · exact Or.inr (Or.inr ⟨hpath, rfl, if_neg fun h => h.1 hpath⟩)
    · rw [if_pos ⟨hpath, hr, hacc⟩]
      exact Or.inl (Value.agree_refl _)
  | some child =>
    rw [member?_restoreValue_of_get? hm hs hv]
    have hverdict := verdict_eq mask hr (Path.join path key) child
      (Entries.get? (storedMembers stored) key)
    cases h : mask.access (Path.join path key) with
    | allowed => exact absurd h hacc
    | restricted =>
      rw [h] at hverdict
      exact Or.inl (agree_outcome_of_revert hverdict)
    | descend =>
      rw [h] at hverdict
      cases hc : child.isContainer with
      | true =>
        exact Or.inr (Or.inl ⟨child, rfl, rfl, outcome_of_isContainer hr h hc _⟩)
      | false =>
        rw [hc] at hverdict
        exact Or.inl (agree_outcome_of_revert hverdict)

/-- Under a protected key the restored payload agrees with what is stored, or it has nothing there:
because it has no object for the key, or because the payload leaves out a member of the document
itself. -/
theorem agree_at?_restoreValue {front : Position} {key : String}
    (hr : ∀ k ∈ front.keys ++ [key], isReserved reserved k = false) {path : String}
    (hway : ∀ met ∈ Path.trail path (front.keys ++ [key]), mask.access met ≠ .allowed)
    (hend : mask.access (Path.walk path (front.keys ++ [key])) = .restricted) {v : Value}
    {stored : Option Value} (hv : v.IsCanonical) (hs : ∀ s, stored = some s → s.IsCanonical) :
    agree ((mask.restoreValue reserved path stored v).at? (front ++ [.member key]))
        (stored.bind (Value.at? · (front ++ [.member key]))) = true ∨
      (mask.restoreValue reserved path stored v).at? (front ++ [.member key]) = none ∧
        ((∀ members, (mask.restoreValue reserved path stored v).at? front ≠
            some (.object members)) ∨
          Path.walk path front.keys = "" ∧ v.at? (front ++ [.member key]) = none) := by
  induction front generalizing path v stored with
  | nil =>
    cases v with
    | object ms =>
      have hstored := isCanonical_storedMembers hs
      rw [List.nil_append, bind_at?_member, Value.at?_member, Value.at?_member]
      rcases member?_restoreValue_cases hv.ordered hstored.ordered
          (hr key (List.mem_singleton_self key)) (hway _ (List.mem_singleton_self _)) with
        hagree | ⟨child, -, hwalked, -⟩ | ⟨hpath, hnone, hmember⟩
      · exact Or.inl (Value.agree_bind hagree fun _ _ hsame => hsame)
      · have hrestricted : mask.access (Path.join path key) = .restricted := hend
        rw [hwalked] at hrestricted
        cases hrestricted
      · have hleft : (Value.object ms).member? key = none := hnone
        rw [hmember, hleft]
        exact Or.inr ⟨rfl, Or.inr ⟨hpath, rfl⟩⟩
    | array items => exact Or.inr ⟨rfl, Or.inl fun members h => by cases h⟩
    | _ => exact Or.inr ⟨rfl, Or.inl fun members h => by cases h⟩
  | cons step front ih =>
    cases step with
    | member k =>
      cases v with
      | object ms =>
        have hstored := isCanonical_storedMembers hs
        have hk : isReserved reserved k = false := hr k List.mem_cons_self
        have hacc : mask.access (Path.join path k) ≠ .allowed := hway _ List.mem_cons_self
        rw [List.cons_append, bind_at?_member, Value.at?_member, Value.at?_member,
          Value.at?_member]
        rcases member?_restoreValue_cases hv.ordered hstored.ordered hk hacc with
          hagree | ⟨child, hchild, -, hmember⟩ | ⟨-, -, hmember⟩
        · exact Or.inl (Value.agree_bind hagree fun _ _ hsame => Value.agree_at? hsame _)
        · have hsome : (Value.object ms).member? k = some child := hchild
          rw [hmember, hsome]
          exact ih (fun l hl => hr l (List.mem_cons_of_mem _ hl))
            (fun met hmet => hway met (List.mem_cons_of_mem _ hmet)) hend (hv.get? hchild)
            (fun s h => hstored.get? h)
        · rw [hmember]
          exact Or.inr ⟨rfl, Or.inl fun members h => by cases h⟩
      | _ => exact Or.inr ⟨rfl, Or.inl fun members h => by cases h⟩
    | item place =>
      rw [List.cons_append, bind_at?_item, Value.at?_item, Value.at?_item, Value.at?_item,
        item?_restoreValue]
      cases hchild : v.item? place with
      | none => exact Or.inr ⟨rfl, Or.inl fun members h => by cases h⟩
      | some child =>
        exact ih hr hway hend (hv.item? hchild) fun s h =>
          isCanonical_of_getElem? (itemsCanonical_storedItems hs) h

/-! ### Positions that may be written -/

/-- The way from a path along keys comes to a path that may be written, and to no protected one
before it. -/
def IsOpen (mask : Mask) (path : String) : List String → Prop
  | [] => False
  | key :: keys =>
    mask.access (Path.join path key) = .allowed ∨
      mask.access (Path.join path key) = .descend ∧ IsOpen mask (Path.join path key) keys

/-- What the payload has at a position that may be written stays there. -/
theorem at?_restoreValue_of_isOpen {position : Position} {path : String}
    (hopen : mask.IsOpen path position.keys) {v : Value} {stored : Option Value}
    (hv : v.IsCanonical) (hs : ∀ s, stored = some s → s.IsCanonical) {w : Value}
    (hw : v.at? position = some w) :
    (mask.restoreValue reserved path stored v).at? position = some w := by
  induction position generalizing path v stored with
  | nil => exact hopen.elim
  | cons step rest ih =>
    cases step with
    | member key =>
      cases v with
      | object ms =>
        have hstored := isCanonical_storedMembers hs
        obtain ⟨child, hmember, hw⟩ := Option.bind_eq_some_iff.1 hw
        have hchild : Entries.get? ms key = some child := hmember
        rw [Value.at?_member, member?_restoreValue_of_get? hv.ordered hstored.ordered hchild]
        by_cases hr : isReserved reserved key = true
        · rw [outcome, verdict, if_pos hr]
          exact hw
        · have hverdict := verdict_eq mask (Bool.eq_false_iff.2 hr) (Path.join path key) child
            (Entries.get? (storedMembers stored) key)
          rcases hopen with hallowed | ⟨hdescend, hrest⟩
          · rw [hallowed] at hverdict
            rw [outcome, hverdict]
            exact hw
          · -- the way goes on, so that the member has something inside it
            cases rest with
            | nil => exact hrest.elim
            | cons next rest =>
              rw [outcome_of_isContainer (Bool.eq_false_iff.2 hr) hdescend
                (Value.isContainer_of_at? hw)]
              exact ih hrest (hv.get? hchild) (fun s h => hstored.get? h) hw
      | _ => cases hw
    | item place =>
      obtain ⟨child, hchild, hw⟩ := Option.bind_eq_some_iff.1 hw
      rw [Value.at?_item, item?_restoreValue, hchild]
      exact ih hopen (hv.item? hchild)
        (fun s h => isCanonical_of_getElem? (itemsCanonical_storedItems hs) h) hw

/-! ### What a mask protects and what it leaves open -/

/-- The mask protects the position that keys lead to: an exclusive mask excludes its path; any other
mask includes no path on the way there, the position itself included, and none below it. -/
def Protects (mask : Mask) (keys : List String) : Prop :=
  if mask.isExclusive then mask.get? (Path.dotted keys) = some false
  else (∀ path ∈ Path.fronts keys, mask.get? path ≠ some true) ∧
    ∀ path ∈ mask.included, Path.isBelow path (Path.dotted keys) = false

/-- The mask leaves the position open that keys lead to: an exclusive mask excludes no path on the
way there, the position itself included, and none below it; any other mask includes a path on the
way. -/
def LeavesOpen (mask : Mask) (keys : List String) : Prop :=
  if mask.isExclusive then
    ∀ path ∈ mask.excluded, path ∉ Path.fronts keys ∧ Path.isBelow path (Path.dotted keys) = false
  else ∃ path ∈ Path.fronts keys, mask.get? path = some true

instance (mask : Mask) (keys : List String) : Decidable (mask.Protects keys) :=
  inferInstanceAs (Decidable (if mask.isExclusive then mask.get? (Path.dotted keys) = some false
    else (∀ path ∈ Path.fronts keys, mask.get? path ≠ some true) ∧
      ∀ path ∈ mask.included, Path.isBelow path (Path.dotted keys) = false))

instance (mask : Mask) (keys : List String) : Decidable (mask.LeavesOpen keys) :=
  inferInstanceAs (Decidable (if mask.isExclusive then
      ∀ path ∈ mask.excluded, path ∉ Path.fronts keys ∧ Path.isBelow path (Path.dotted keys) = false
    else ∃ path ∈ Path.fronts keys, mask.get? path = some true))

theorem access_of_protects {keys : List String} (hne : keys ≠ []) (hkeys : ∀ key ∈ keys, key ≠ "")
    (h : mask.Protects keys) :
    (∀ met ∈ Path.trail "" keys, mask.access met ≠ .allowed) ∧
      mask.access (Path.walk "" keys) = .restricted := by
  obtain ⟨key, keys, rfl⟩ := List.exists_cons_of_ne_nil hne
  have hkey := hkeys key List.mem_cons_self
  rw [Protects, ← Path.walk_empty hkey, ← Path.trail_empty hkey] at h
  cases hx : mask.isExclusive with
  | true =>
    rw [if_pos hx] at h
    refine ⟨Path.forall_mem_trail_iff.2 fun front hfront hprefix => ?_, access_of_excluded hx h⟩
    obtain ⟨rest, heq⟩ := hprefix
    obtain ⟨first, front, rfl⟩ := List.exists_cons_of_ne_nil hfront
    obtain ⟨rfl, -⟩ := List.cons.inj heq
    -- the excluded path lies at the end of the way that begins with what is met
    rw [← heq, Path.walk_append] at h
    refine access_ne_allowed hx ?_ h
    rw [Path.walk_cons, Path.join_empty]
    exact Path.walk_ne_empty hkey front
  | false =>
    rw [if_neg (Bool.eq_false_iff.1 hx)] at h
    obtain ⟨hway, hbelow⟩ := h
    constructor
    · intro met hmet
      rw [access_of_not_included hx (hway met hmet)]
      split_ifs <;> exact Access.noConfusion
    · have hend : Path.walk "" (key :: keys) ∈ Path.trail "" (key :: keys) :=
        Path.mem_trail_iff.2 ⟨_, List.cons_ne_nil _ _, List.prefix_refl _, rfl⟩
      rw [access_of_not_included hx (hway _ hend), if_neg]
      intro hleads
      obtain ⟨path, hpath, h⟩ := leadsBelow_eq_true_iff.1 hleads
      rw [hx] at hpath
      rw [hbelow path hpath] at h
      cases h

theorem isOpen_of_not_excluded (hx : mask.isExclusive) {path : String} {keys : List String}
    (hne : keys ≠ []) (h : ∀ p ∈ mask.excluded,
      p ∉ Path.trail path keys ∧ Path.isBelow p (Path.walk path keys) = false) :
    mask.IsOpen path keys := by
  induction keys generalizing path with
  | nil => exact absurd rfl hne
  | cons key keys ih =>
    have haccess := access_of_not_excluded hx fun hp => (h _ hp).1 List.mem_cons_self
    cases hleads : mask.leadsBelow (Path.join path key) with
    | false =>
      rw [hleads] at haccess
      exact Or.inl haccess
    | true =>
      rw [hleads] at haccess
      refine Or.inr ⟨haccess, ih ?_ fun p hp =>
        ⟨fun hmet => (h p hp).1 (List.mem_cons_of_mem _ hmet), (h p hp).2⟩⟩
      -- something excluded lies below, so that the way does not end here
      rintro rfl
      obtain ⟨p, hp, hbelow⟩ := leadsBelow_eq_true_iff.1 hleads
      rw [hx] at hp
      rw [Path.walk_cons, Path.walk_nil] at h
      rw [(h p hp).2] at hbelow
      cases hbelow

theorem isOpen_of_included (hx : mask.isExclusive = false) {path : String} {keys : List String}
    (hkeys : ∀ key ∈ keys, key ≠ "") {met : String} (hmet : met ∈ Path.trail path keys)
    (h : mask.get? met = some true) : mask.IsOpen path keys := by
  induction keys generalizing path with
  | nil => cases hmet
  | cons key keys ih =>
    rcases List.mem_cons.1 hmet with rfl | hmet
    · exact Or.inl (access_of_included hx h)
    · by_cases hget : mask.get? (Path.join path key) = some true
      · exact Or.inl (access_of_included hx hget)
      · have hjoin := Path.join_ne_empty_of_key (hkeys key List.mem_cons_self) path
        have hincluded := mem_pathsWith_iff_mem_entries.2 (mem_entries_of_get? h)
        have hleads : mask.leadsBelow (Path.join path key) = true :=
          leadsBelow_eq_true_iff.2 ⟨met, hx ▸ hincluded, Path.isBelow_of_mem_trail hjoin hmet⟩
        have haccess := access_of_not_included hx hget
        rw [if_pos hleads] at haccess
        exact Or.inr ⟨haccess, ih (fun k hk => hkeys k (List.mem_cons_of_mem _ hk)) hmet⟩

theorem isOpen_of_leavesOpen {keys : List String} (hne : keys ≠ []) (hkeys : ∀ key ∈ keys, key ≠ "")
    (h : mask.LeavesOpen keys) : mask.IsOpen "" keys := by
  obtain ⟨key, rest, rfl⟩ := List.exists_cons_of_ne_nil hne
  have hkey := hkeys key List.mem_cons_self
  rw [LeavesOpen, ← Path.walk_empty hkey, ← Path.trail_empty hkey] at h
  cases hx : mask.isExclusive with
  | true =>
    rw [if_pos hx] at h
    exact isOpen_of_not_excluded hx hne h
  | false =>
    rw [if_neg (Bool.eq_false_iff.1 hx)] at h
    obtain ⟨met, hmet, hget⟩ := h
    exact isOpen_of_included hx hkeys hmet hget

/-! ### What restoring reverts and what it keeps -/

theorem restore_fst (h : mask.isEmpty = false) (payload : Value) (stored : Option Value) :
    (mask.restore reserved payload stored).1 = mask.restoreValue reserved "" stored payload := by
  rw [restore, if_neg (Bool.eq_false_iff.1 h)]

theorem agree_at?_of_protects {front : Position} {key : String}
    (hkeys : ∀ k ∈ front.keys ++ [key], k ≠ "" ∧ isReserved reserved k = false)
    (h : mask.Protects (front.keys ++ [key])) {payload : Value} {stored : Option Value}
    (hpayload : payload.IsCanonical) (hstored : ∀ s, stored = some s → s.IsCanonical) :
    agree ((mask.restoreValue reserved "" stored payload).at? (front ++ [.member key]))
        (stored.bind (Value.at? · (front ++ [.member key]))) = true ∨
      (mask.restoreValue reserved "" stored payload).at? (front ++ [.member key]) = none ∧
        ((∀ members, (mask.restoreValue reserved "" stored payload).at? front ≠
            some (.object members)) ∨
          front.keys = [] ∧ payload.at? (front ++ [.member key]) = none) := by
  have hnonempty : ∀ k ∈ front.keys ++ [key], k ≠ "" := fun k hk => (hkeys k hk).1
  obtain ⟨hway, hend⟩ := access_of_protects
    (List.append_ne_nil_of_right_ne_nil _ (List.cons_ne_nil key [])) hnonempty h
  -- the path of the object is empty only if the object is the document
  have hdocument : Path.walk "" front.keys = "" → front.keys = [] :=
    Path.eq_nil_of_walk_eq_empty fun k hk => hnonempty k (List.mem_append_left _ hk)
  exact (agree_at?_restoreValue (fun k hk => (hkeys k hk).2) hway hend hpayload hstored).imp_right
    (And.imp_right (Or.imp_right (And.imp_left hdocument)))

/-- Restoring reverts exactly the protected positions. What the restored payload has at a protected
position is what is stored there, and what the payload has at a position left open stays. In turn
what is stored at a protected position is there again wherever the restored payload has an object
for it, members of the document itself that the payload leaves out excepted. -/
theorem restore_reverts (hmask : mask.isEmpty = false) {payload : Value} {stored : Option Value}
    (hpayload : payload.IsCanonical) (hstored : ∀ s, stored = some s → s.IsCanonical)
    {position : Position}
    (hkeys : ∀ key ∈ position.keys, key ≠ "" ∧ isReserved reserved key = false) :
    (position.EndsInKey → mask.Protects position.keys →
      ∀ w, (mask.restore reserved payload stored).1.at? position = some w →
        ∃ u, stored.bind (Value.at? · position) = some u ∧ w.same u = true) ∧
    (position.keys ≠ [] → mask.LeavesOpen position.keys →
      ∀ w, payload.at? position = some w →
        (mask.restore reserved payload stored).1.at? position = some w) ∧
    (∀ front key, position = front ++ [.member key] → mask.Protects position.keys →
      ∀ u, stored.bind (Value.at? · position) = some u →
        ∀ members, (mask.restore reserved payload stored).1.at? front = some (.object members) →
          (Position.keys front = [] → (payload.at? position).isSome) →
            ∃ w, (mask.restore reserved payload stored).1.at? position = some w ∧
              w.same u = true) := by
  rw [restore_fst hmask]
  refine ⟨?_, ?_, ?_⟩
  · rintro ⟨front, key, rfl⟩ hprotects w hw
    rw [Position.keys_append] at hkeys hprotects
    rcases agree_at?_of_protects hkeys hprotects hpayload hstored with hagree | ⟨hnone, -⟩
    · rw [hw] at hagree
      exact Value.agree_some_left hagree
    · rw [hw] at hnone
      cases hnone
  · intro hne hopen w hw
    have hnonempty : ∀ key ∈ position.keys, key ≠ "" := fun key hkey => (hkeys key hkey).1
    exact at?_restoreValue_of_isOpen (isOpen_of_leavesOpen hne hnonempty hopen) hpayload hstored hw
  · rintro front key rfl hprotects u hu members hmembers hpresent
    rw [Position.keys_append] at hkeys hprotects
    rcases agree_at?_of_protects hkeys hprotects hpayload hstored with
      hagree | ⟨-, hobject | ⟨hdocument, hleft⟩⟩
    · rw [hu] at hagree
      exact Value.agree_some_right hagree
    · exact absurd hmembers (hobject members)
    · have hsome := hpresent hdocument
      rw [hleft] at hsome
      cases hsome

/-- The pin that is stored is put back, and the number is written. -/
theorem restore_reverts_of_phones :
    let mask : Mask := ⟨[("phones.pin", false)]⟩
    let payload := Value.object [("phones", .array
      [.object [("number", .string "7"), ("pin", .string "9999")]])]
    let stored := Value.object [("phones", .array
      [.object [("number", .string "1"), ("pin", .string "0000")]])]
    let number : Position := [.member "phones", .item 0, .member "number"]
    let pin : Position := [.member "phones", .item 0, .member "pin"]
    mask.LeavesOpen number.keys ∧ mask.Protects pin.keys ∧
      (mask.restore "_" payload (some stored)).1.at? number = some (.string "7") ∧
      (∃ w, (mask.restore "_" payload (some stored)).1.at? pin = some w ∧
        w.same (.string "0000") = true) := by
  intro mask payload stored number pin
  have hpayload : payload.IsCanonical := by decide
  have hstored : ∀ s, some stored = some s → s.IsCanonical := by
    rintro s ⟨⟩
    decide
  have hopen : mask.LeavesOpen number.keys := by decide +kernel
  have hprotects : mask.Protects pin.keys := by decide +kernel
  have hmask : mask.isEmpty = false := rfl
  have hnumber : ∀ key ∈ number.keys, key ≠ "" ∧ isReserved "_" key = false := by decide
  have hpin : ∀ key ∈ pin.keys, key ≠ "" ∧ isReserved "_" key = false := by decide
  have hwritten := (restore_reverts hmask hpayload hstored hnumber).2.1 (List.cons_ne_nil _ _) hopen
  have hrestored := (restore_reverts hmask hpayload hstored hpin).2.2
    [.member "phones", .item 0] "pin" rfl hprotects _ rfl
  exact ⟨hopen, hprotects, hwritten _ rfl, hrestored _ rfl fun h => by cases h⟩

/-- The document itself has no key, so that no excluded path is its path or lies below the empty
one. A member is put back in it all the same. -/
theorem document_changed_of_missing_member :
    let mask : Mask := ⟨[("address.zip", false)]⟩
    let payload := Value.object [("address", .object [("city", .string "Bergen")])]
    let stored := Value.object [("address", .object
      [("city", .string "Oslo"), ("zip", .string "0150")])]
    mask.isEmpty = false ∧ payload.IsCanonical ∧ stored.IsCanonical ∧
      (∀ key ∈ Position.keys [], key ≠ "" ∧ isReserved "_" key = false) ∧
      mask.get? "" = none ∧ mask.LeavesOpen (Position.keys []) ∧
      payload.at? [] = some payload ∧
      (mask.restore "_" payload (some stored)).1.at? [] ≠ some payload := by
  refine ⟨rfl, by decide, by decide, by decide, rfl, by decide +kernel, rfl, fun h => ?_⟩
  have hzip := congrArg (fun found => found.bind fun v =>
    v.at? [.member "address", .member "zip"]) h
  cases hzip

end Mask

end RecordGuard
