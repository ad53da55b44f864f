import RecordGuard.Proofs.CollectionUpdates
import RecordGuard.Proofs.GuardedOperations
import RecordGuard.Proofs.Restoring

/-!
# What an update does to protected values

An update restores the protected values of the one document that its filter matches, except behind
an array that the payload puts in the place of an object (`Mask.cutsOff`).
`Guard.agree_update_iff` says that this is the only exception, and that a value behind such an array
is lost.
-/

namespace RecordGuard

open Json (Value)
open Json.Value (agree)

theorem Json.Value.agree_none_left {found : Option Value} :
    agree none found = true ↔ found = none := by
  cases found with
  | none => exact ⟨fun _ => rfl, fun _ => rfl⟩
  | some v =>
    constructor
    · intro h
      cases h
    · intro h
      cases h

namespace Collection

variable {c : Collection}

theorem findOne_of_matching {filter : Option Filter} {name : String} {document : Value}
    (h : c.matching filter = .ok [(name, document)]) :
    c.findOne filter none = .ok (some document) := by
  obtain ⟨contents, hcontents, heq⟩ := exists_mapM_of_matching h
  rw [findOne, firstMatch_eq_of_mapM hcontents, ← List.head?_filter, ← heq]
  rfl

/-- Among documents of which one matches, a stricter filter can only find this one. -/
theorem eq_of_firstMatch_conjoin {filter stricter : Option Filter} {name key : String}
    {document found : Value} (h : c.matching filter = .ok [(name, document)])
    (hf : c.firstMatch (Filter.conjoin filter stricter) = .ok (some (key, found))) :
    key = name ∧ found = document := by
  obtain ⟨contents, hcontents, heq⟩ := exists_mapM_of_matching h
  rw [firstMatch_eq_of_mapM hcontents] at hf
  have hfound := Except.ok.inj hf
  have hmem := List.mem_of_find?_eq_some hfound
  have haccepts := List.find?_some hfound
  rw [Filter.accepts_conjoin, Bool.and_eq_true] at haccepts
  have hmatching : (key, found) ∈ [(name, document)] :=
    heq ▸ List.mem_filter.2 ⟨hmem, haccepts.1⟩
  cases List.mem_singleton.1 hmatching
  exact ⟨rfl, rfl⟩

end Collection

namespace Mask

variable {mask : Mask} {reserved : String}

/-- The payload has an array at an ancestor of the path along the keys, and the mask excludes
neither this ancestor nor one above it. -/
def LosesBelow (mask : Mask) (payload : Value) (keys : List String) : Prop :=
  ∃ front back items, keys = front ++ back ∧ front ≠ [] ∧ back ≠ [] ∧
    Path.getSegments? payload front = some (.array items) ∧
    ∀ met ∈ Path.trail "" front, mask.get? met ≠ some false

theorem access_eq_descend_iff (hx : mask.isExclusive) {path : String} (hne : path ≠ "")
    {keys : List String} (hp : mask.get? (Path.walk path keys) = some false) :
    mask.access path = .descend ↔ mask.get? path ≠ some false := by
  constructor
  · intro h hexcluded
    rw [access_of_excluded hx hexcluded] at h
    cases h
  · intro h
    have hallowed := access_ne_allowed hx hne hp
    rw [access, if_pos hx, if_neg h] at hallowed ⊢
    split_ifs at hallowed ⊢
    · rfl
    · exact absurd rfl hallowed

theorem cutsOff_iff (hx : mask.isExclusive) {path : String} (hne : path ≠ "") {keys : List String}
    (hp : mask.get? (Path.walk path keys) = some false) (v : Value) :
    mask.cutsOff path keys v = true ↔ ∃ front back items, keys = front ++ back ∧ back ≠ [] ∧
      Path.getSegments? v front = some (.array items) ∧
      ∀ met ∈ path :: Path.trail path front, mask.get? met ≠ some false := by
  induction keys generalizing path v with
  | nil =>
    constructor
    · intro h
      cases h
    · rintro ⟨front, back, items, happend, hback, -⟩
      exact absurd (List.append_eq_nil_iff.1 happend.symm).2 hback
  | cons key keys ih =>
    have hnext := Path.join_ne_empty hne key
    rw [cutsOff, Bool.and_eq_true, beq_iff_eq, access_eq_descend_iff hx hne hp, Bool.or_eq_true,
      Option.any_eq_true]
    constructor
    · rintro ⟨hpath, harray | ⟨child, hchild, hcut⟩⟩
      · cases v with
        | array items =>
          refine ⟨[], key :: keys, items, rfl, List.cons_ne_nil _ _, rfl, ?_⟩
          intro met hm
          rw [List.mem_singleton.1 hm]
          exact hpath
        | _ => cases harray
      · obtain ⟨front, back, items, rfl, hback, hget, hmet⟩ := (ih hnext hp child).1 hcut
        refine ⟨key :: front, back, items, rfl, hback, ?_, ?_⟩
        · rw [Path.getSegments?_cons, hchild]
          exact hget
        · intro met hm
          rcases List.mem_cons.1 hm with rfl | hm
          · exact hpath
          · exact hmet met hm
    · rintro ⟨front, back, items, happend, hback, hget, hmet⟩
      refine ⟨hmet path List.mem_cons_self, ?_⟩
      cases front with
      | nil =>
        cases hget
        exact Or.inl rfl
      | cons k front =>
        obtain ⟨rfl, rfl⟩ := List.cons.inj happend
        obtain ⟨child, hchild, hget⟩ := Option.bind_eq_some_iff.1 hget
        have hrest : ∀ met ∈ Path.join path key :: Path.trail (Path.join path key) front,
            mask.get? met ≠ some false := fun met hm => hmet met (List.mem_cons_of_mem _ hm)
        exact Or.inr ⟨child, hchild,
          (ih hnext hp child).2 ⟨front, back, items, rfl, hback, hget, hrest⟩⟩

/-- The same for a whole payload. -/
theorem any_cutsOff_iff (hx : mask.isExclusive) {key : String} {keys : List String} (hne : key ≠ "")
    (hp : mask.get? (Path.walk "" (key :: keys)) = some false) (payload : Value) :
    (payload.member? key).any (mask.cutsOff key keys) = true ↔
      mask.LosesBelow payload (key :: keys) := by
  rw [Path.walk_cons, Path.join_empty] at hp
  rw [Option.any_eq_true]
  constructor
  · rintro ⟨child, hchild, hcut⟩
    obtain ⟨front, back, items, rfl, hback, hget, hmet⟩ := (cutsOff_iff hx hne hp child).1 hcut
    refine ⟨key :: front, back, items, rfl, List.cons_ne_nil _ _, hback, ?_, ?_⟩
    · rw [Path.getSegments?_cons, hchild]
      exact hget
    · rw [Path.trail, Path.join_empty]
      exact hmet
  · rintro ⟨front, back, items, happend, hfront, hback, hget, hmet⟩
    obtain ⟨k, rest, rfl⟩ := List.exists_cons_of_ne_nil hfront
    obtain ⟨rfl, rfl⟩ := List.cons.inj happend
    obtain ⟨child, hchild, hget⟩ := Option.bind_eq_some_iff.1 hget
    rw [Path.trail, Path.join_empty] at hmet
    exact ⟨child, hchild,
      (cutsOff_iff hx hne hp child).2 ⟨rest, back, items, rfl, hback, hget, hmet⟩⟩

/-- What a document holds under a key after it is set to a restored payload: the outcome of the
payload's member, and what is stored where the payload has none. -/
theorem member?_setMembers_restored {payload : Value} {stored members : Entries Value}
    (hpayload : payload.IsCanonical) (hs : (Value.object stored).IsCanonical)
    (hmembers : mask.restoreValue reserved "" (some (.object stored)) payload = .object members)
    {idField key : String} (hid : key ≠ idField) :
    (Collection.setMembers idField members (.object stored)).member? key =
      match payload.member? key with
      | none => Entries.get? stored key
      | some child => mask.outcome reserved key key child (Entries.get? stored key) := by
  have hrestored : (Value.object members).IsCanonical := by
    rw [← hmembers]
    refine mask.isCanonical_restoreValue "" _ (fun s h => ?_) payload hpayload
    cases h
    exact hs
  rw [Collection.member?_setMembers idField hrestored.ordered, if_neg hid]
  have hget : Entries.get? members key =
      (mask.restoreValue reserved "" (some (.object stored)) payload).member? key := by
    rw [hmembers]
    rfl
  have hordered : Entries.Ordered (storedMembers (some (.object stored))) := hs.ordered
  cases payload with
  | object ms =>
    have hmember : (Value.object ms).member? key = Entries.get? ms key := rfl
    rw [hget, hmember]
    cases hk : Entries.get? ms key with
    | none =>
      rw [member?_restoreValue_of_missing hpayload.ordered hordered hk, if_neg fun h => h.1 rfl]
      rfl
    | some child =>
      rw [member?_restoreValue_of_get? hpayload.ordered hordered hk, Path.join_empty]
      show (mask.outcome reserved key key child (Entries.get? stored key)).or
        (Entries.get? stored key) = mask.outcome reserved key key child (Entries.get? stored key)
      -- a member is dropped only if none is stored, so that none comes back for it
      cases houtcome : mask.outcome reserved key key child (Entries.get? stored key) with
      | none =>
        rw [stored_eq_none_of_outcome houtcome]
        rfl
      | some w => rfl
  | _ => cases hmembers

/-- A document that is set to a restored payload keeps what it has at an excluded path exactly if
the payload does not cut it off. -/
theorem agree_setMembers_iff (hx : mask.isExclusive) {key : String} {keys : List String}
    (hne : key ≠ "") (hr : ∀ k ∈ key :: keys, isReserved reserved k = false)
    (hp : mask.get? (Path.walk "" (key :: keys)) = some false) {payload document : Value}
    (hpayload : payload.IsCanonical) (hd : document.IsCanonical) {members : Entries Value}
    (hmembers : mask.restoreValue reserved "" (some document) payload = .object members)
    (idField : String) :
    agree (Path.getSegments? (Collection.setMembers idField members document) (key :: keys))
        (Path.getSegments? document (key :: keys)) = true ↔
      ¬(key ≠ idField ∧ mask.LosesBelow payload (key :: keys) ∧
        Path.getSegments? document (key :: keys) ≠ none) := by
  rw [← any_cutsOff_iff hx hne hp]
  rw [Path.walk_cons, Path.join_empty] at hp
  cases document with
  | object stored =>
    have hkept : (Value.object stored).member? key = Entries.get? stored key := rfl
    rw [Path.getSegments?_cons, Path.getSegments?_cons, hkept]
    by_cases hid : key = idField
    · -- an update leaves the identifier alone, whatever the payload has in its place
      rw [hid, Collection.member?_setMembers_idField]
      simp [hkept, ← hid]
    · rw [member?_setMembers_restored hpayload hd hmembers hid]
      cases hchild : payload.member? key with
      | none => simp
      | some child =>
        have hc := hpayload.member? hchild
        have hs : ∀ s, Entries.get? stored key = some s → s.IsCanonical := fun s h => hd.get? h
        rw [Option.any_some]
        cases hcut : mask.cutsOff key keys child with
        | true =>
          simp only [outcome_of_cutsOff hr hc hs hcut]
          simp [Value.agree_none_left, hid]
        | false => simp [agree_outcome hx hne hr hp hc hs hcut]
  | _ => simp [Collection.setMembers, Path.getSegments?_cons, Value.member?, Value.members?, agree]

end Mask

namespace Guard

variable {guard : Guard} {c c' : Collection} {identity : Option Identity} {filter : Option Filter}
  {payload document updated : Value} {name path key : String} {keys : List String} {scope : Scope}
  {mask : Mask}

/-- An update of the one document that its filter matches writes that document. It keeps what the
document has at a path that the exclusive mask of the permission excludes, unless the payload puts
an array in the place of an object on the way there. -/
theorem agree_update_iff (hmatch : c.matching filter = .ok [(name, document)])
    (hperm : guard.resolver.resolve identity .update = .ok (.scoped scope))
    (hmask : scope.projection = some mask) (hx : mask.isExclusive)
    (hp : mask.get? path = some false) (hpath : Path.segments path = key :: keys) (hkey : key ≠ "")
    (hr : ∀ k ∈ key :: keys, isReserved guard.reserved k = false) (hpayload : payload.IsCanonical)
    (hupdate : guard.update c identity filter payload = .ok (some updated, c')) :
    c' = { c with
      entries := Entries.insert c.entries name updated.compact } ∧
    (agree (Path.get? updated path) (Path.get? document path) = true ↔
      ¬(key ≠ c.idField ∧ mask.LosesBelow payload (key :: keys) ∧
        Path.get? document path ≠ none)) := by
  have hrequire : guard.resolver.require identity .update = .ok (.scoped scope) :=
    Resolver.require_eq_ok_iff.2 ⟨hperm, Permission.noConfusion⟩
  have hprojection := Permission.projection_scoped hmask hx
  have hd : document.IsCanonical := Collection.isCanonical_of_mem_documents
    (Collection.mem_documents_of_matching hmatch (List.mem_singleton_self _)).1
  -- the record that is read back is the one that matches, which is also the one that is updated
  have hrecord : c.recordFor (.scoped scope) filter = .ok (some document) := by
    rw [Collection.recordFor, hprojection]
    exact Collection.findOne_of_matching hmatch
  rw [update_eq, hrequire] at hupdate
  dsimp only at hupdate
  rw [hrecord] at hupdate
  dsimp only at hupdate
  rw [guard.writable_eq hprojection] at hupdate
  cases hone : c.updateOne (Filter.conjoin filter (Permission.scoped scope).filter)
      (mask.restoreValue guard.reserved "" (some document) payload) with
  | error e =>
    rw [hone] at hupdate
    cases hupdate
  | ok result =>
    rw [hone] at hupdate
    cases hupdate
    rcases Collection.exists_of_updateOne hone with
      ⟨-, hnone, -⟩ | ⟨members, found, stored, hmembers, hfirst, hupdated, hc'⟩
    · cases hnone
    · obtain ⟨rfl, rfl⟩ := Collection.eq_of_firstMatch_conjoin hmatch hfirst
      cases hupdated
      refine ⟨hc', ?_⟩
      rw [← Path.walk_segments hpath hkey, hpath] at hp
      rw [Path.get?, Path.get?, hpath]
      exact Mask.agree_setMembers_iff hx hkey hr hp hpayload hd hmembers c.idField

/-! ### A postcode -/

/-- The guard of users whose postcode no user updates. -/
def ofPostcodes : Guard :=
  ofRole "User" "USER"
    ⟨none, some (.flag true), some (.scoped ⟨none, some (.compact "-address.zip")⟩), none⟩

/-- A user with a postcode. -/
def resident : Value :=
  .object [("_id", .string "1"), ("address", .object [("zip", .string "0150")])]

/-- The collection of this one user. -/
def residents : Collection := .ofDocuments [resident]

theorem mapM_load_residents : residents.entries.mapM Collection.load = .ok [("1", resident)] :=
  Collection.mapM_load_of_comesBack rfl (by decide)

theorem matching_residents : residents.matching none = .ok [("1", resident)] :=
  Collection.matching_eq_of_mapM mapM_load_residents

theorem resolve_ofPostcodes :
    ofPostcodes.resolver.resolve (some (.ofRoles ["USER"])) .update =
      .ok (.scoped ⟨[], some ⟨[("address.zip", false)]⟩⟩) := rfl

/-- A user who sends an address without its postcode keeps the postcode. -/
theorem agree_update_of_city :
    let user := some (Identity.ofRoles ["USER"])
    let mask : Mask := ⟨[("address.zip", false)]⟩
    let payload := Value.object [("address", .object [("city", .string "Oslo")])]
    residents.matching none = .ok [("1", resident)] ∧
      ofPostcodes.resolver.resolve user .update = .ok (.scoped ⟨[], some mask⟩) ∧
      mask.isExclusive ∧ mask.get? "address.zip" = some false ∧
      Path.segments "address.zip" = ["address", "zip"] ∧ "address" ≠ "" ∧
      (∀ k ∈ ["address", "zip"], isReserved ofPostcodes.reserved k = false) ∧
      payload.IsCanonical ∧
      ∃ updated c', ofPostcodes.update residents user none payload = .ok (some updated, c') ∧
        c' = { residents with
          entries := Entries.insert residents.entries "1" updated.compact } ∧
        (agree (Path.get? updated "address.zip") (Path.get? resident "address.zip") = true ↔
          ¬("address" ≠ residents.idField ∧ mask.LosesBelow payload ["address", "zip"] ∧
            Path.get? resident "address.zip" ≠ none)) := by
  intro user mask payload
  have hpath : Path.segments "address.zip" = ["address", "zip"] := by decide +kernel
  have hr : ∀ k ∈ ["address", "zip"], isReserved ofPostcodes.reserved k = false := by decide
  have hpayload : payload.IsCanonical := by decide
  have hwritten : ((ofPostcodes.update residents user none payload).toOption.any fun result =>
      result.1.isSome) = true := by decide +kernel
  cases hupdate : ofPostcodes.update residents user none payload with
  | error e => simp [hupdate, Except.toOption] at hwritten
  | ok result =>
    obtain ⟨_ | updated, c'⟩ := result
    · simp [hupdate, Except.toOption] at hwritten
    · exact ⟨matching_residents, resolve_ofPostcodes, rfl, rfl, hpath, by decide, hr, hpayload,
        updated, c', rfl, agree_update_iff matching_residents resolve_ofPostcodes rfl rfl rfl hpath
          (by decide) hr hpayload hupdate⟩

/-- A user who sends an empty list in the place of an address deletes the postcode. -/
theorem postcode_lost_of_list :
    let user := some (Identity.ofRoles ["USER"])
    let payload := Value.object [("address", .array [])]
    ofPostcodes.resolver.resolve user .update =
        .ok (.scoped ⟨[], some ⟨[("address.zip", false)]⟩⟩) ∧
      residents.matching none = .ok [("1", resident)] ∧
      ∃ updated c', ofPostcodes.update residents user none payload = .ok (some updated, c') ∧
        agree (Path.get? updated "address.zip") (Path.get? resident "address.zip") = false := by
  intro user payload
  have hlost : ((ofPostcodes.update residents user none payload).toOption.any fun result =>
      result.1.any fun updated =>
        !agree (Path.get? updated "address.zip") (Path.get? resident "address.zip")) = true := by
    decide +kernel
  cases hupdate : ofPostcodes.update residents user none payload with
  | error e => simp [hupdate, Except.toOption] at hlost
  | ok result =>
    obtain ⟨_ | updated, c'⟩ := result
    · simp [hupdate, Except.toOption] at hlost
    · refine ⟨resolve_ofPostcodes, matching_residents, updated, c', rfl, ?_⟩
      simpa [hupdate, Except.toOption] using hlost

end Guard

end RecordGuard
