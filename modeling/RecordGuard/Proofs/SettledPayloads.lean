import RecordGuard.Proofs.Restoring

/-!
# Payloads in which nothing is left to restore

Restoring a payload tells the paths whose values change. If there are none, the payload is left as
it is (`Mask.restoreValue_of_settled`), and if the payload comes out equal, there are none
(`Mask.restoredPaths_of_same`). So the paths can stand for the change, and a payload without any is
*settled*.

What is stored is settled against itself (`Mask.restoredPaths_self`). Restoring takes whole values
from what is stored, so that a payload is settled once it has been restored
(`Mask.restoredPaths_restoreValue`): a member is as the payload has it where it may be written, it
is what is stored where it was put back, and it has been restored in turn where the walk went on.
-/

namespace RecordGuard.Mask

open Json (Value)
open Json.Value (IsCanonical ItemsCanonical MembersCanonical agree)

variable {mask : Mask} {reserved : String}

/-! ### The members of a payload -/

variable (mask reserved) in
/-- The paths whose values change in a member of a payload, the path being that of the member. -/
def restoredInMember (key path : String) (v : Value) (stored : Option Value) : List String :=
  match mask.verdict reserved key path v stored with
  | .keep => []
  | .replace _ => [path]
  | .drop => [path]
  | .walk => mask.restoredPaths reserved path stored v

theorem restoredInMembers_eq_flatMap (path : String) (stored : Entries Value)
    (ms : List (String × Value)) :
    mask.restoredInMembers reserved path stored ms =
      ms.flatMap fun m => mask.restoredInMember reserved m.1 (Path.join path m.1) m.2
        (Entries.get? stored m.1) := by
  induction ms with
  | nil => rfl
  | cons m ms ih => rw [List.flatMap_cons, ← ih]; rfl

theorem restoredInMembers_eq_nil_iff {path : String} {stored : Entries Value}
    {ms : List (String × Value)} :
    mask.restoredInMembers reserved path stored ms = [] ↔
      ∀ m ∈ ms, mask.restoredInMember reserved m.1 (Path.join path m.1) m.2
        (Entries.get? stored m.1) = [] := by
  rw [restoredInMembers_eq_flatMap, List.flatMap_eq_nil_iff]

theorem restoredPaths_object_eq_nil_iff {path : String} {stored : Option Value}
    {ms : List (String × Value)} :
    mask.restoredPaths reserved path stored (.object ms) = [] ↔
      mask.restoredInMembers reserved path (storedMembers stored) ms = [] ∧
        mask.missing reserved path ms (storedMembers stored) = [] := by
  rw [restoredPaths, List.append_eq_nil_iff, List.map_eq_nil_iff]

theorem verdict_eq_walk_iff {key path : String} {v : Value} {stored : Option Value} :
    mask.verdict reserved key path v stored = .walk ↔
      isReserved reserved key = false ∧ mask.access path = .descend ∧ v.isContainer = true := by
  have hrevert : revert v stored ≠ .walk := by
    cases stored with
    | none => exact Verdict.noConfusion
    | some s =>
      rw [revert]
      split_ifs <;> exact Verdict.noConfusion
  rw [verdict]
  cases isReserved reserved key with
  | true => simp
  | false => cases mask.access path <;> simp [hrevert]

theorem not_same_of_replace {key path : String} {v s : Value} {stored : Option Value}
    (h : mask.verdict reserved key path v stored = .replace s) : v.same s = false := by
  rcases verdict_cases mask reserved key path v stored with hv | hv | hv
  · rw [hv] at h
    cases h
  · rw [hv] at h
    cases h
  · rw [hv] at h
    cases stored with
    | none => cases h
    | some t =>
      rw [revert] at h
      split_ifs at h with hsame
      cases h
      exact Bool.eq_false_iff.2 hsame

/-- Nothing is filled in if the payload has every protected member that is stored. -/
theorem missing_eq_nil {path : String} {members stored : Entries Value}
    (hs : Entries.Ordered stored)
    (h : ∀ key, path ≠ "" → isReserved reserved key = false →
      mask.access (Path.join path key) ≠ .allowed → Entries.has members key = false →
        Entries.get? stored key = none) :
    mask.missing reserved path members stored = [] := by
  refine List.eq_nil_iff_forall_not_mem.2 fun ⟨key, s⟩ hmem => ?_
  have hfilled := (ordered_missing hs).get?_of_mem hmem
  rw [get?_missing] at hfilled
  split_ifs at hfilled with hmissing
  obtain ⟨hpath, hhas, hreserved, haccess⟩ := hmissing
  rw [h key hpath hreserved haccess hhas] at hfilled
  cases hfilled

/-! ### A settled payload is left as it is -/

mutual

theorem restoreValue_of_settled (path : String) (stored : Option Value) : (v : Value) →
    mask.restoredPaths reserved path stored v = [] →
      mask.restoreValue reserved path stored v = v
  | .null, _ => rfl
  | .bool _, _ => rfl
  | .number _, _ => rfl
  | .string _, _ => rfl
  | .array items, h =>
    congrArg Value.array (restoreItems_of_settled path (storedItems stored) items h)
  | .object members, h => by
    obtain ⟨hmembers, hmissing⟩ := restoredPaths_object_eq_nil_iff.1 h
    have hkept := restoreMembers_of_settled path (storedMembers stored) members hmembers
    rw [restoreValue, hmissing, hkept]
    rfl

theorem restoreItems_of_settled (path : String) (stored : List Value) : (vs : List Value) →
    mask.restoredInItems reserved path stored vs = [] →
      mask.restoreItems reserved path stored vs = vs
  | [], _ => rfl
  | v :: vs, h => by
    obtain ⟨hv, hvs⟩ := List.append_eq_nil_iff.1 h
    rw [restoreItems, restoreValue_of_settled path stored.head? v hv,
      restoreItems_of_settled path stored.tail vs hvs]

theorem restoreMembers_of_settled (path : String) (stored : Entries Value) :
    (ms : List (String × Value)) → mask.restoredInMembers reserved path stored ms = [] →
      mask.restoreMembers reserved path stored ms = ms
  | [], _ => rfl
  | (key, v) :: ms, h => by
    obtain ⟨hmember, hms⟩ := List.append_eq_nil_iff.1 h
    have hrest := restoreMembers_of_settled path stored ms hms
    rw [restoreMembers, hrest]
    cases hv : mask.verdict reserved key (Path.join path key) v (Entries.get? stored key) with
    | keep => rfl
    | replace s =>
      rw [hv] at hmember
      cases hmember
    | drop =>
      rw [hv] at hmember
      cases hmember
    | walk =>
      rw [hv] at hmember
      dsimp only
      rw [restoreValue_of_settled (Path.join path key) (Entries.get? stored key) v hmember]

end

/-! ### What comes out equal is settled -/

/-- Where a restored object is equal to the payload, every member of the payload is. -/
theorem agree_outcome_of_same {path : String} {stored : Option Value} {ms : List (String × Value)}
    (h : (mask.restoreValue reserved path stored (.object ms)).same (.object ms) = true)
    (hm : Entries.Ordered ms) (hs : Entries.Ordered (storedMembers stored)) :
    ∀ m ∈ ms, agree (mask.outcome reserved m.1 (Path.join path m.1) m.2
      (Entries.get? (storedMembers stored) m.1)) (some m.2) = true := by
  rintro ⟨key, v⟩ hmem
  have hget : Entries.get? ms key = some v := hm.get?_of_mem hmem
  have hagree := Value.agree_member? h key
  rw [member?_restoreValue_of_get? hm hs hget] at hagree
  have hmember : (Value.object ms).member? key = some v := hget
  rwa [hmember] at hagree

/-- No member has been filled in where a restored object is equal to the payload. -/
theorem missing_of_same {path : String} {stored : Option Value} {ms : List (String × Value)}
    (h : (mask.restoreValue reserved path stored (.object ms)).same (.object ms) = true)
    (hm : Entries.Ordered ms) (hs : Entries.Ordered (storedMembers stored)) :
    mask.missing reserved path ms (storedMembers stored) = [] := by
  refine missing_eq_nil hs fun key hpath hreserved haccess hhas => ?_
  have hnone : Entries.get? ms key = none := Entries.has_eq_false_iff.1 hhas
  have hagree := Value.agree_member? h key
  rw [member?_restoreValue_of_missing hm hs hnone, if_pos ⟨hpath, hreserved, haccess⟩] at hagree
  have hmember : (Value.object ms).member? key = none := hnone
  rw [hmember] at hagree
  cases hstored : Entries.get? (storedMembers stored) key with
  | none => rfl
  | some s =>
    rw [hstored] at hagree
    cases hagree

mutual

theorem restoredPaths_of_same (path : String) (stored : Option Value)
    (hs : ∀ s, stored = some s → s.IsCanonical) : (v : Value) → v.IsCanonical →
      (mask.restoreValue reserved path stored v).same v = true →
        mask.restoredPaths reserved path stored v = []
  | .null, _, _ => rfl
  | .bool _, _, _ => rfl
  | .number _, _, _ => rfl
  | .string _, _, _ => rfl
  | .array items, hv, h => restoredInItems_of_same path (storedItems stored)
      (itemsCanonical_storedItems hs) items hv h
  | .object members, hv, h => by
    have hstored := isCanonical_storedMembers hs
    have houtcomes := agree_outcome_of_same h hv.ordered hstored.ordered
    exact restoredPaths_object_eq_nil_iff.2
      ⟨restoredInMembers_of_agree path _ hstored members hv.2 houtcomes,
        missing_of_same h hv.ordered hstored.ordered⟩

theorem restoredInItems_of_same (path : String) (stored : List Value)
    (hs : ItemsCanonical stored) : (vs : List Value) → ItemsCanonical vs →
      Value.sameItems (mask.restoreItems reserved path stored vs) vs = true →
        mask.restoredInItems reserved path stored vs = []
  | [], _, _ => rfl
  | v :: vs, hvs, h => by
    obtain ⟨hfirst, hrest⟩ := Bool.and_eq_true_iff.1 h
    exact List.append_eq_nil_iff.2
      ⟨restoredPaths_of_same path stored.head? (fun _ hh => isCanonical_of_head? hs hh) v hvs.1
          hfirst,
        restoredInItems_of_same path stored.tail (itemsCanonical_tail hs) vs hvs.2 hrest⟩

theorem restoredInMembers_of_agree (path : String) (stored : Entries Value)
    (hs : IsCanonical (.object stored)) : (ms : List (String × Value)) → MembersCanonical ms →
      (∀ m ∈ ms, agree (mask.outcome reserved m.1 (Path.join path m.1) m.2
        (Entries.get? stored m.1)) (some m.2) = true) →
        mask.restoredInMembers reserved path stored ms = []
  | [], _, _ => rfl
  | (key, v) :: ms, hms, h => by
    have hrest := restoredInMembers_of_agree path stored hs ms hms.2
      fun m hm => h m (List.mem_cons_of_mem _ hm)
    have hagree := h (key, v) List.mem_cons_self
    rw [restoredInMembers, hrest, List.append_nil]
    rw [outcome] at hagree
    -- a value is replaced only by a different one, and a dropped member agrees with none
    cases hverdict : mask.verdict reserved key (Path.join path key) v (Entries.get? stored key) with
    | keep => rfl
    | replace s =>
      rw [hverdict] at hagree
      have hsame : v.same s = true := Value.same_symm hagree
      rw [not_same_of_replace hverdict] at hsame
      cases hsame
    | drop =>
      rw [hverdict] at hagree
      cases hagree
    | walk =>
      rw [hverdict] at hagree
      exact restoredPaths_of_same _ _ (fun _ hh => hs.get? hh) v hms.1 hagree

end

/-! ### What is stored is settled against itself -/

theorem restoredInMember_self {key path : String} {v : Value}
    (h : mask.restoredPaths reserved path (some v) v = []) :
    mask.restoredInMember reserved key path v (some v) = [] := by
  rw [restoredInMember]
  rcases verdict_cases mask reserved key path v (some v) with hv | hv | hv
  · rw [hv]
  · rw [hv]
    exact h
  · rw [hv, revert, if_pos (Value.same_refl v)]

theorem missing_self {path : String} {ms : Entries Value} (h : Entries.Ordered ms) :
    mask.missing reserved path ms ms = [] :=
  missing_eq_nil h fun _ _ _ _ hhas => Entries.has_eq_false_iff.1 hhas

mutual

theorem restoredPaths_self (path : String) : (v : Value) → v.IsCanonical →
    mask.restoredPaths reserved path (some v) v = []
  | .null, _ => rfl
  | .bool _, _ => rfl
  | .number _, _ => rfl
  | .string _, _ => rfl
  | .array items, h => restoredInItems_self path items h
  | .object members, h =>
    restoredPaths_object_eq_nil_iff.2
      ⟨restoredInMembers_self path members members h.2 fun _ hm => h.ordered.get?_of_mem hm,
        missing_self h.ordered⟩

theorem restoredInItems_self (path : String) : (vs : List Value) → ItemsCanonical vs →
    mask.restoredInItems reserved path vs vs = []
  | [], _ => rfl
  | v :: vs, h => List.append_eq_nil_iff.2
    ⟨restoredPaths_self path v h.1, restoredInItems_self path vs h.2⟩

/-- The members are some of those that are stored. -/
theorem restoredInMembers_self (path : String) (stored : Entries Value) :
    (ms : List (String × Value)) → MembersCanonical ms →
      (∀ m ∈ ms, Entries.get? stored m.1 = some m.2) →
        mask.restoredInMembers reserved path stored ms = []
  | [], _, _ => rfl
  | (key, v) :: ms, hms, h => by
    have hstored : Entries.get? stored key = some v := h (key, v) List.mem_cons_self
    have hmember : mask.restoredInMember reserved key (Path.join path key) v
        (Entries.get? stored key) = [] := by
      rw [hstored]
      exact restoredInMember_self (restoredPaths_self (Path.join path key) v hms.1)
    exact List.append_eq_nil_iff.2
      ⟨hmember, restoredInMembers_self path stored ms hms.2
        fun m hm => h m (List.mem_cons_of_mem _ hm)⟩

end

/-! ### What has been restored is settled -/

theorem isContainer_restoreValue {path : String} {stored : Option Value} {v : Value} :
    (mask.restoreValue reserved path stored v).isContainer = v.isContainer := by
  cases v <;> rfl

/-- A restored object has every protected member that is stored. -/
theorem missing_restoreValue {path : String} {stored : Option Value} {ms ns : List (String × Value)}
    (hm : Entries.Ordered ms) (hs : Entries.Ordered (storedMembers stored))
    (h : mask.restoreValue reserved path stored (.object ms) = .object ns) :
    mask.missing reserved path ns (storedMembers stored) = [] := by
  refine missing_eq_nil hs fun key hpath hreserved haccess hhas => ?_
  have hnone : (mask.restoreValue reserved path stored (.object ms)).member? key = none := by
    rw [h]
    exact Entries.has_eq_false_iff.1 hhas
  cases hget : Entries.get? ms key with
  | none =>
    rwa [member?_restoreValue_of_missing hm hs hget, if_pos ⟨hpath, hreserved, haccess⟩] at hnone
  | some v =>
    rw [member?_restoreValue_of_get? hm hs hget] at hnone
    exact stored_eq_none_of_outcome hnone

mutual

theorem restoredPaths_restoreValue (path : String) (stored : Option Value)
    (hs : ∀ s, stored = some s → s.IsCanonical) : (v : Value) → v.IsCanonical →
      mask.restoredPaths reserved path stored (mask.restoreValue reserved path stored v) = []
  | .null, _ => rfl
  | .bool _, _ => rfl
  | .number _, _ => rfl
  | .string _, _ => rfl
  | .array items, h => restoredInItems_restoreItems path (storedItems stored)
      (itemsCanonical_storedItems hs) items h
  | .object members, h => by
    have hstored := isCanonical_storedMembers hs
    have hkept := restoredInMembers_restoreMembers path (storedMembers stored) hstored members h.2
    refine restoredPaths_object_eq_nil_iff.2 ⟨restoredInMembers_eq_nil_iff.2 fun m hm => ?_,
      missing_restoreValue h.ordered hstored.ordered rfl⟩
    rcases Entries.mem_foldl_insert hm with hfilled | hm
    · -- a member that has been filled in meets itself
      have hget := hstored.ordered.get?_of_mem (mem_of_mem_missing hfilled)
      rw [hget]
      exact restoredInMember_self (restoredPaths_self _ _ (hstored.get? hget))
    · exact restoredInMembers_eq_nil_iff.1 hkept m hm

theorem restoredInItems_restoreItems (path : String) (stored : List Value)
    (hs : ItemsCanonical stored) : (vs : List Value) → ItemsCanonical vs →
      mask.restoredInItems reserved path stored (mask.restoreItems reserved path stored vs) = []
  | [], _ => rfl
  | v :: vs, h => List.append_eq_nil_iff.2
    ⟨restoredPaths_restoreValue path stored.head? (fun _ hh => isCanonical_of_head? hs hh) v h.1,
      restoredInItems_restoreItems path stored.tail (itemsCanonical_tail hs) vs h.2⟩

theorem restoredInMembers_restoreMembers (path : String) (stored : Entries Value)
    (hs : IsCanonical (.object stored)) : (ms : List (String × Value)) → MembersCanonical ms →
      mask.restoredInMembers reserved path stored (mask.restoreMembers reserved path stored ms) = []
  | [], _ => rfl
  | (key, v) :: ms, h => by
    have hrest := restoredInMembers_restoreMembers path stored hs ms h.2
    rw [restoreMembers]
    cases hv : mask.verdict reserved key (Path.join path key) v (Entries.get? stored key) with
    | keep =>
      refine List.append_eq_nil_iff.2 ⟨?_, hrest⟩
      rw [hv]
    | replace s =>
      -- the stored value stands in the payload now, so that it meets itself
      have hget := stored_eq_of_replace hv
      have hself : mask.restoredInMember reserved key (Path.join path key) s
          (Entries.get? stored key) = [] := by
        rw [hget]
        exact restoredInMember_self (restoredPaths_self _ s (hs.get? hget))
      exact List.append_eq_nil_iff.2 ⟨hself, hrest⟩
    | drop => exact hrest
    | walk =>
      -- a container is restored to a container, so that the walk goes on inside it again
      obtain ⟨hreserved, haccess, hcontainer⟩ := verdict_eq_walk_iff.1 hv
      refine List.append_eq_nil_iff.2 ⟨?_, hrest⟩
      rw [verdict_eq_walk_iff.2 ⟨hreserved, haccess, isContainer_restoreValue.trans hcontainer⟩]
      exact restoredPaths_restoreValue _ _ (fun _ hh => hs.get? hh) v h.1

end

/-! ### Restoring -/

theorem restore_of_settled {payload : Value} {stored : Option Value}
    (h : mask.restoredPaths reserved "" stored payload = []) :
    mask.restore reserved payload stored = (payload, []) := by
  rw [restore]
  split_ifs
  · rfl
  · rw [restoreValue_of_settled "" stored payload h, h]
    rfl

theorem restore_restore {payload : Value} {stored : Option Value} (hp : payload.IsCanonical)
    (hs : ∀ s, stored = some s → s.IsCanonical) :
    mask.restore reserved (mask.restore reserved payload stored).1 stored =
      ((mask.restore reserved payload stored).1, []) := by
  by_cases hempty : mask.isEmpty = true
  · have hrestore : mask.restore reserved payload stored = (payload, []) := if_pos hempty
    rw [hrestore]
    exact hrestore
  · have hrestored : (mask.restore reserved payload stored).1 =
        mask.restoreValue reserved "" stored payload := congrArg Prod.fst (if_neg hempty)
    rw [hrestored]
    exact restore_of_settled (restoredPaths_restoreValue "" stored hs payload hp)

theorem nodup_restore (payload : Value) (stored : Option Value) :
    (mask.restore reserved payload stored).2.Nodup := by
  rw [restore]
  split_ifs
  · exact List.nodup_nil
  · exact nodup_distinct _

theorem restore_of_eq_nil {payload : Value} {stored : Option Value}
    (h : (mask.restore reserved payload stored).2 = []) :
    (mask.restore reserved payload stored).1 = payload := by
  rw [restore] at *
  split_ifs at *
  · rfl
  · exact restoreValue_of_settled "" stored payload (distinct_eq_nil_iff.1 h)

theorem restore_eq_nil_of_same {payload : Value} {stored : Option Value} (hp : payload.IsCanonical)
    (hs : ∀ s, stored = some s → s.IsCanonical)
    (h : (mask.restore reserved payload stored).1.same payload = true) :
    (mask.restore reserved payload stored).2 = [] := by
  rw [restore] at *
  split_ifs at *
  · rfl
  · exact distinct_eq_nil_iff.2 (restoredPaths_of_same "" stored hs payload hp h)

/-- Restoring a payload once more changes and tells nothing, and neither does restoring it against
itself. The paths that are told come without repeats, and there are none exactly if the payload is
left as it is, be it to the letter or up to equality. -/
theorem restore_settles (mask : Mask) (reserved : String) {payload : Value} {stored : Option Value}
    (hp : payload.IsCanonical) (hs : ∀ s, stored = some s → s.IsCanonical) :
    let restored := mask.restore reserved payload stored
    mask.restore reserved restored.1 stored = (restored.1, []) ∧
      mask.restore reserved payload (some payload) = (payload, []) ∧
      restored.2.Nodup ∧
      (restored.2 = [] ↔ restored.1 = payload) ∧
      (restored.2 = [] ↔ restored.1.same payload = true) := by
  intro restored
  have hquiet : restored.1.same payload = true → restored.2 = [] := restore_eq_nil_of_same hp hs
  have hkept : restored.2 = [] → restored.1 = payload := restore_of_eq_nil
  have hsame : restored.1 = payload → restored.1.same payload = true := fun heq => by
    rw [heq]
    exact Value.same_refl payload
  exact ⟨restore_restore hp hs, restore_of_settled (restoredPaths_self "" payload hp),
    nodup_restore payload stored, ⟨hkept, fun heq => hquiet (hsame heq)⟩,
    ⟨fun hnil => hsame (hkept hnil), hquiet⟩⟩

/-- Two stored pins are put back, one of them in a phone that has been sent without, and what is put
back stays. -/
theorem restore_settles_of_phones :
    let mask : Mask := ⟨[("phones.pin", false)]⟩
    let phone := fun number pin : String =>
      Value.object [("number", .string number), ("pin", .string pin)]
    let stored := Value.object [("phones", .array [phone "1" "0000", phone "2" "1111"])]
    let payload := Value.object [
      ("phones", .array [.object [("number", .string "7")], phone "2" "9999"])]
    let restored := Value.object [("phones", .array [phone "7" "0000", phone "2" "1111"])]
    payload.IsCanonical ∧ stored.IsCanonical ∧
      mask.restore "_" payload (some stored) = (restored, ["phones.pin"]) ∧
      mask.restore "_" restored (some stored) = (restored, []) ∧
      mask.restore "_" stored (some stored) = (stored, []) := by
  intro mask phone stored payload restored
  have hp : payload.IsCanonical := by decide
  have hs : stored.IsCanonical := by decide
  have hstored : ∀ s, some stored = some s → s.IsCanonical := fun s h => Option.some.inj h ▸ hs
  have hrestored : mask.restore "_" payload (some stored) = (restored, ["phones.pin"]) := rfl
  have hagain := (restore_settles mask "_" hp hstored).1
  rw [hrestored] at hagain
  exact ⟨hp, hs, hrestored, hagain, (restore_settles mask "_" hs hstored).2.1⟩

end RecordGuard.Mask
