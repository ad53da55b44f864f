import RecordGuard.Proofs.Canonical
import RecordGuard.Proofs.Equality
import RecordGuard.Proofs.Masks

/-!
# What restoring puts back

`outcome` is what becomes of one member of a payload, and `member?_restoreValue_of_get?` and
`member?_restoreValue_of_missing` say that a restored object consists of the outcomes of its
members and of stored members that are filled in. Under an exclusive mask what is found at an
excluded path agrees with what is stored there, unless the payload puts an array in the place of an
object on the way: `cutsOff` is that exception, and it is the only one (`agree_outcome`,
`outcome_of_cutsOff`).
-/

namespace RecordGuard.Mask

open Json (Value)
open Json.Value (IsCanonical ItemsCanonical MembersCanonical agree)

variable (mask : Mask) (reserved : String)

/-- What becomes of a member of a payload, the path being that of the member. -/
def outcome (key path : String) (v : Value) (stored : Option Value) : Option Value :=
  match mask.verdict reserved key path v stored with
  | .keep => some v
  | .replace s => some s
  | .drop => none
  | .walk => some (mask.restoreValue reserved path stored v)

/-- Whether the value at a path of the payload cuts off what is stored along further keys: it has
an array where the walk to their end goes on inside an object. -/
def cutsOff (path : String) : List String → Value → Bool
  | [], _ => false
  | key :: keys, v =>
    mask.access path == .descend &&
      (v.isArray || (v.member? key).any fun child => cutsOff (Path.join path key) keys child)

/-! ### The members of a restored object -/

theorem get?_restoreMembers (path : String) (stored : Entries Value)
    {ms : List (String × Value)} (h : Entries.Ordered ms) (key : String) :
    Entries.get? (mask.restoreMembers reserved path stored ms) key =
      (Entries.get? ms key).bind fun v =>
        mask.outcome reserved key (Path.join path key) v (Entries.get? stored key) := by
  induction ms with
  | nil => rfl
  | cons m ms ih =>
    obtain ⟨k, v⟩ := m
    have htail := ih h.tail
    by_cases hk : k = key
    · subst hk
      rw [h.get?_head] at htail
      rw [Entries.get?_cons, if_pos rfl, Option.bind_some, restoreMembers, outcome]
      -- a dropped member leaves the look-up to the rest, which does not hold its key again
      cases mask.verdict reserved k (Path.join path k) v (Entries.get? stored k) with
      | keep => exact if_pos rfl
      | replace s => exact if_pos rfl
      | drop => exact htail
      | walk => exact if_pos rfl
    · rw [Entries.get?_cons, if_neg hk, ← htail, restoreMembers]
      cases mask.verdict reserved k (Path.join path k) v (Entries.get? stored k) with
      | keep => exact if_neg hk
      | replace s => exact if_neg hk
      | drop => rfl
      | walk => exact if_neg hk

theorem get?_missing (path : String) (members stored : Entries Value) (key : String) :
    Entries.get? (mask.missing reserved path members stored) key =
      if path ≠ "" ∧ Entries.has members key = false ∧ isReserved reserved key = false ∧
          mask.access (Path.join path key) ≠ .allowed
      then Entries.get? stored key else none := by
  rw [missing]
  by_cases hp : path = ""
  · simp [hp, Entries.get?]
  · rw [if_neg hp, Entries.get?_filter fun key => !Entries.has members key &&
      !isReserved reserved key && decide (mask.access (Path.join path key) ≠ .allowed)]
    simp only [Bool.and_eq_true, Bool.not_eq_true', decide_eq_true_eq, and_assoc, hp, ne_eq,
      not_false_eq_true, true_and]

variable {mask reserved}

theorem ordered_missing {path : String} {members stored : Entries Value}
    (h : Entries.Ordered stored) : Entries.Ordered (mask.missing reserved path members stored) := by
  rw [missing]
  split_ifs
  · exact Entries.ordered_nil
  · exact List.Pairwise.filter _ h

/-- A value whose members are looked at because it may be stored is canonical. -/
theorem isCanonical_storedMembers {stored : Option Value}
    (h : ∀ s, stored = some s → s.IsCanonical) :
    IsCanonical (.object (storedMembers stored)) := by
  cases stored with
  | none => exact ⟨Entries.ordered_nil, trivial⟩
  | some s =>
    cases s with
    | object members => exact h _ rfl
    | _ => exact ⟨Entries.ordered_nil, trivial⟩

theorem mem_of_mem_missing {path : String} {members stored : Entries Value}
    {entry : String × Value} (h : entry ∈ mask.missing reserved path members stored) :
    entry ∈ stored := by
  rw [missing] at h
  split_ifs at h
  · cases h
  · exact (List.mem_filter.1 h).1

theorem bind_getSegments?_cons (stored : Option Value) (key : String) (keys : List String) :
    stored.bind (Path.getSegments? · (key :: keys)) =
      (Entries.get? (storedMembers stored) key).bind (Path.getSegments? · keys) := by
  cases stored with
  | none => rfl
  | some s => cases s <;> rfl

theorem member?_restoreValue_of_get? {path : String} {stored : Option Value}
    {ms : List (String × Value)} (h : Entries.Ordered ms)
    (hs : Entries.Ordered (storedMembers stored)) {key : String} {v : Value}
    (hv : Entries.get? ms key = some v) :
    (mask.restoreValue reserved path stored (.object ms)).member? key =
      mask.outcome reserved key (Path.join path key) v
        (Entries.get? (storedMembers stored) key) := by
  have hhas : Entries.has ms key = true := Entries.has_eq_true_iff.2 ⟨v, hv⟩
  rw [restoreValue, Value.member?, Value.members?, Option.bind_some,
    Entries.get?_foldl_insert (ordered_missing hs), get?_missing, if_neg (by simp [hhas]),
    Option.none_or, get?_restoreMembers mask reserved path _ h, hv, Option.bind_some]

theorem member?_restoreValue_of_missing {path : String} {stored : Option Value}
    {ms : List (String × Value)} (h : Entries.Ordered ms)
    (hs : Entries.Ordered (storedMembers stored)) {key : String}
    (hv : Entries.get? ms key = none) :
    (mask.restoreValue reserved path stored (.object ms)).member? key =
      if path ≠ "" ∧ isReserved reserved key = false ∧ mask.access (Path.join path key) ≠ .allowed
      then Entries.get? (storedMembers stored) key else none := by
  have hhas : Entries.has ms key = false := Entries.has_eq_false_iff.2 hv
  rw [restoreValue, Value.member?, Value.members?, Option.bind_some,
    Entries.get?_foldl_insert (ordered_missing hs), get?_missing,
    get?_restoreMembers mask reserved path _ h, hv, Option.bind_none, Option.or_none]
  simp only [hhas, true_and]

/-! ### Outcomes of protected members -/

theorem verdict_eq (mask : Mask) {key : String} (hr : isReserved reserved key = false)
    (path : String) (v : Value) (stored : Option Value) :
    mask.verdict reserved key path v stored =
      match mask.access path with
      | .allowed => .keep
      | .restricted => revert v stored
      | .descend => if v.isContainer then .walk else revert v stored := by
  rw [verdict, hr]
  exact if_neg Bool.false_ne_true

theorem verdict_cases (mask : Mask) (reserved key path : String) (v : Value)
    (stored : Option Value) :
    mask.verdict reserved key path v stored = .keep ∨
      mask.verdict reserved key path v stored = .walk ∨
      mask.verdict reserved key path v stored = revert v stored := by
  rw [verdict]
  by_cases hr : isReserved reserved key = true
  · exact Or.inl (if_pos hr)
  · rw [if_neg hr]
    cases mask.access path with
    | allowed => exact Or.inl rfl
    | restricted => exact Or.inr (Or.inr rfl)
    | descend =>
      by_cases hc : v.isContainer = true
      · exact Or.inr (Or.inl (if_pos hc))
      · exact Or.inr (Or.inr (if_neg hc))

/-- A container with protected paths below is walked. -/
theorem outcome_of_isContainer {key path : String} (hr : isReserved reserved key = false)
    (hacc : mask.access path = .descend) {v : Value} (hv : v.isContainer = true)
    (stored : Option Value) :
    mask.outcome reserved key path v stored =
      some (mask.restoreValue reserved path stored v) := by
  rw [outcome, verdict_eq mask hr, hacc]
  simp only [hv, if_true]

/-- What is found in a protected member is what is stored there, or an equal value that the payload
has in its place. -/
theorem found_of_revert {key path : String} {v : Value} {stored : Option Value}
    (h : mask.verdict reserved key path v stored = revert v stored) (keys : List String) :
    let found := (mask.outcome reserved key path v stored).bind (Path.getSegments? · keys)
    let kept := stored.bind (Path.getSegments? · keys)
    found = kept ∨ found = Path.getSegments? v keys ∧ agree found kept = true := by
  rw [outcome, h]
  cases stored with
  | none => exact Or.inl rfl
  | some s =>
    rw [revert]
    split_ifs with hs
    · exact Or.inr ⟨rfl, Value.agree_getSegments? hs keys⟩
    · exact Or.inl rfl

/-- A member is dropped only where nothing is stored. -/
theorem stored_eq_none_of_outcome {key path : String} {v : Value} {stored : Option Value}
    (h : mask.outcome reserved key path v stored = none) : stored = none := by
  cases stored with
  | none => rfl
  | some s =>
    rw [outcome] at h
    rcases verdict_cases mask reserved key path v (some s) with hv | hv | hv
    · rw [hv] at h
      cases h
    · rw [hv] at h
      cases h
    · rw [hv, revert] at h
      split_ifs at h

/-- What a member is replaced by is the stored value. -/
theorem stored_eq_of_replace {key path : String} {v s : Value} {stored : Option Value}
    (h : mask.verdict reserved key path v stored = .replace s) : stored = some s := by
  rcases verdict_cases mask reserved key path v stored with hv | hv | hv
  · rw [hv] at h
    cases h
  · rw [hv] at h
    cases h
  · rw [hv] at h
    cases stored with
    | none => cases h
    | some t =>
      rw [revert] at h
      split_ifs at h
      cases h
      rfl

/-- Under an exclusive mask, what is found at an excluded path of a restored payload is what is
stored there, or an equal value that the payload has there, unless the payload cuts it off. -/
theorem found_outcome (hx : mask.isExclusive) {keys : List String} {key path : String}
    (hne : path ≠ "") (hr : ∀ k ∈ key :: keys, isReserved reserved k = false)
    (hp : mask.get? (Path.walk path keys) = some false) {v : Value} {stored : Option Value}
    (hv : v.IsCanonical) (hs : ∀ s, stored = some s → s.IsCanonical)
    (hcut : mask.cutsOff path keys v = false) :
    let found := (mask.outcome reserved key path v stored).bind (Path.getSegments? · keys)
    let kept := stored.bind (Path.getSegments? · keys)
    found = kept ∨ found = Path.getSegments? v keys ∧ agree found kept = true := by
  induction keys generalizing key path v stored with
  | nil =>
    rw [Path.walk_nil] at hp
    refine found_of_revert ?_ []
    rw [verdict_eq mask (hr key List.mem_cons_self), access_of_excluded hx hp]
  | cons k keys ih =>
    have hverdict := verdict_eq mask (hr key List.mem_cons_self) path v stored
    cases hacc : mask.access path with
    | allowed => exact absurd hacc (access_ne_allowed hx hne hp)
    | restricted =>
      rw [hacc] at hverdict
      exact found_of_revert hverdict (k :: keys)
    | descend =>
      rw [hacc] at hverdict
      cases v with
      | array items => simp [cutsOff, hacc, Value.isArray] at hcut
      | object ms =>
        have hcontainer : (Value.object ms).isContainer = true := rfl
        have hwalk := outcome_of_isContainer (hr key List.mem_cons_self) hacc hcontainer stored
        have hmember : (Value.object ms).member? k = Entries.get? ms k := rfl
        have hstored := isCanonical_storedMembers hs
        rw [hwalk, Option.bind_some, Path.getSegments?_cons, bind_getSegments?_cons stored,
          Path.getSegments?_cons (.object ms), hmember]
        cases hk : Entries.get? ms k with
        | none =>
          -- the member is left out and filled in as it is stored
          have hfill : path ≠ "" ∧ isReserved reserved k = false ∧
              mask.access (Path.join path k) ≠ .allowed :=
            ⟨hne, hr k (List.mem_cons_of_mem _ List.mem_cons_self),
              access_ne_allowed hx (Path.join_ne_empty hne k) hp⟩
          rw [member?_restoreValue_of_missing hv.ordered hstored.ordered hk, if_pos hfill]
          exact Or.inl rfl
        | some child =>
          rw [member?_restoreValue_of_get? hv.ordered hstored.ordered hk]
          refine ih (Path.join_ne_empty hne k) (fun l hl => hr l (List.mem_cons_of_mem _ hl)) hp
            (hv.get? hk) (fun s h => hstored.get? h) ?_
          simpa [cutsOff, hacc, Value.isArray, Value.member?, Value.members?, hk] using hcut
      | _ => exact found_of_revert hverdict (k :: keys)

theorem agree_outcome (hx : mask.isExclusive) {keys : List String} {key path : String}
    (hne : path ≠ "") (hr : ∀ k ∈ key :: keys, isReserved reserved k = false)
    (hp : mask.get? (Path.walk path keys) = some false) {v : Value} {stored : Option Value}
    (hv : v.IsCanonical) (hs : ∀ s, stored = some s → s.IsCanonical)
    (hcut : mask.cutsOff path keys v = false) :
    agree ((mask.outcome reserved key path v stored).bind (Path.getSegments? · keys))
      (stored.bind (Path.getSegments? · keys)) = true := by
  rcases found_outcome hx hne hr hp hv hs hcut with heq | ⟨-, hagree⟩
  · rw [heq]
    exact Value.agree_refl _
  · exact hagree

/-- What the payload cuts off is not there any more. -/
theorem outcome_of_cutsOff {keys : List String} {key path : String}
    (hr : ∀ k ∈ key :: keys, isReserved reserved k = false) {v : Value} {stored : Option Value}
    (hv : v.IsCanonical) (hs : ∀ s, stored = some s → s.IsCanonical)
    (hcut : mask.cutsOff path keys v = true) :
    (mask.outcome reserved key path v stored).bind (Path.getSegments? · keys) = none := by
  induction keys generalizing key path v stored with
  | nil => cases hcut
  | cons k keys ih =>
    rw [cutsOff, Bool.and_eq_true, beq_iff_eq] at hcut
    obtain ⟨hacc, hcut⟩ := hcut
    cases v with
    | array items =>
      -- the items are walked against the stored ones, and no member is among them
      rw [outcome_of_isContainer (hr key List.mem_cons_self) hacc rfl stored]
      rfl
    | object ms =>
      have hcontainer : (Value.object ms).isContainer = true := rfl
      have hwalk := outcome_of_isContainer (hr key List.mem_cons_self) hacc hcontainer stored
      have hstored := isCanonical_storedMembers hs
      cases hk : Entries.get? ms k with
      | none => simp [Value.isArray, Value.member?, Value.members?, hk] at hcut
      | some child =>
        have hchild : mask.cutsOff (Path.join path k) keys child = true := by
          simpa [Value.isArray, Value.member?, Value.members?, hk] using hcut
        rw [hwalk, Option.bind_some, Path.getSegments?_cons,
          member?_restoreValue_of_get? hv.ordered hstored.ordered hk]
        exact ih (fun l hl => hr l (List.mem_cons_of_mem _ hl)) (hv.get? hk)
          (fun s h => hstored.get? h) hchild
    | _ => cases hcut

/-- Whatever a restored payload has at an excluded path is stored there: it is the stored value
itself, or an equal one of the payload. -/
theorem exists_stored_of_restored (hx : mask.isExclusive) {key : String} {keys : List String}
    (hne : key ≠ "") (hr : ∀ k ∈ key :: keys, isReserved reserved k = false)
    (hp : mask.get? (Path.walk "" (key :: keys)) = some false) {payload : Value}
    {stored : Option Value} (hpayload : payload.IsCanonical)
    (hs : ∀ s, stored = some s → s.IsCanonical) {w : Value}
    (hw : Path.getSegments? (mask.restoreValue reserved "" stored payload) (key :: keys) = some w) :
    ∃ u, stored.bind (Path.getSegments? · (key :: keys)) = some u ∧
      (w = u ∨ Path.getSegments? payload (key :: keys) = some w ∧ w.same u = true) := by
  rw [Path.walk_cons, Path.join_empty] at hp
  rw [bind_getSegments?_cons]
  cases payload with
  | object ms =>
    have hstored := isCanonical_storedMembers hs
    rw [Path.getSegments?_cons] at hw
    have hmember : (Value.object ms).member? key = Entries.get? ms key := rfl
    rw [Path.getSegments?_cons (.object ms), hmember]
    cases hk : Entries.get? ms key with
    | none =>
      rw [member?_restoreValue_of_missing hpayload.ordered hstored.ordered hk,
        if_neg fun h => h.1 rfl] at hw
      cases hw
    | some child =>
      rw [member?_restoreValue_of_get? hpayload.ordered hstored.ordered hk, Path.join_empty] at hw
      have hchild := hpayload.get? hk
      have hs' : ∀ s, Entries.get? (storedMembers stored) key = some s → s.IsCanonical :=
        fun s h => hstored.get? h
      cases hcut : mask.cutsOff key keys child with
      | true =>
        rw [outcome_of_cutsOff hr hchild hs' hcut] at hw
        cases hw
      | false =>
        rcases found_outcome hx hne hr hp hchild hs' hcut with heq | ⟨heq, hagree⟩
        · exact ⟨w, heq ▸ hw, Or.inl rfl⟩
        · rw [hw] at heq hagree
          obtain ⟨u, hu, hsame⟩ := Value.agree_some_left hagree
          exact ⟨u, hu, Or.inr ⟨heq.symm, hsame⟩⟩
  | _ => cases hw

/-! ### What is restored is canonical -/

theorem keys_restoreMembers_sublist (path : String) (stored : Entries Value)
    (ms : List (String × Value)) :
    (Entries.keys (mask.restoreMembers reserved path stored ms)).Sublist (Entries.keys ms) := by
  induction ms with
  | nil => exact List.Sublist.refl _
  | cons m ms ih =>
    obtain ⟨k, v⟩ := m
    rw [restoreMembers]
    cases mask.verdict reserved k (Path.join path k) v (Entries.get? stored k) with
    | keep => exact ih.cons_cons k
    | replace s => exact ih.cons_cons k
    | drop => exact ih.cons k
    | walk => exact ih.cons_cons k

theorem itemsCanonical_storedItems {stored : Option Value}
    (h : ∀ s, stored = some s → s.IsCanonical) : ItemsCanonical (storedItems stored) := by
  cases stored with
  | none => trivial
  | some s =>
    cases s with
    | array items => exact h _ rfl
    | _ => trivial

theorem isCanonical_of_head? {vs : List Value} (h : ItemsCanonical vs) {v : Value}
    (hv : vs.head? = some v) : v.IsCanonical := by
  cases vs with
  | nil => cases hv
  | cons w ws =>
    cases hv
    exact h.1

theorem itemsCanonical_tail {vs : List Value} (h : ItemsCanonical vs) :
    ItemsCanonical vs.tail := by
  cases vs with
  | nil => trivial
  | cons w ws => exact h.2

mutual

theorem isCanonical_restoreValue (path : String) (stored : Option Value)
    (hs : ∀ s, stored = some s → s.IsCanonical) :
    (v : Value) → v.IsCanonical → (mask.restoreValue reserved path stored v).IsCanonical
  | .null, _ => trivial
  | .bool _, _ => trivial
  | .number _, _ => trivial
  | .string _, _ => trivial
  | .array items, h =>
    itemsCanonical_restoreItems path (storedItems stored) (itemsCanonical_storedItems hs) items h
  | .object members, h => by
    have hstored := isCanonical_storedMembers hs
    have hmembers := membersCanonical_restoreMembers path _ hstored members h.2
    have hkept : IsCanonical (.object
        (mask.restoreMembers reserved path (storedMembers stored) members)) :=
      Value.isCanonical_of_sublist h (keys_restoreMembers_sublist path _ members)
        (Value.membersCanonical_iff.1 hmembers)
    exact hkept.foldl_insert fun member hm => hstored.get?
      (hstored.ordered.get?_of_mem (mem_of_mem_missing hm))

theorem itemsCanonical_restoreItems (path : String) (stored : List Value)
    (hs : ItemsCanonical stored) :
    (vs : List Value) → ItemsCanonical vs →
      ItemsCanonical (mask.restoreItems reserved path stored vs)
  | [], _ => trivial
  | v :: vs, h =>
    ⟨isCanonical_restoreValue path stored.head? (fun _ hh => isCanonical_of_head? hs hh) v h.1,
      itemsCanonical_restoreItems path stored.tail (itemsCanonical_tail hs) vs h.2⟩

theorem membersCanonical_restoreMembers (path : String) (stored : Entries Value)
    (hs : IsCanonical (.object stored)) : (ms : List (String × Value)) → MembersCanonical ms →
    MembersCanonical (mask.restoreMembers reserved path stored ms)
  | [], _ => trivial
  | (key, v) :: ms, h => by
    have hrest := membersCanonical_restoreMembers path stored hs ms h.2
    rw [restoreMembers]
    cases hv : mask.verdict reserved key (Path.join path key) v (Entries.get? stored key) with
    | keep => exact ⟨h.1, hrest⟩
    | replace s => exact ⟨hs.get? (stored_eq_of_replace hv), hrest⟩
    | drop => exact hrest
    | walk => exact ⟨isCanonical_restoreValue _ _ (fun _ hh => hs.get? hh) v h.1, hrest⟩

end

end RecordGuard.Mask
