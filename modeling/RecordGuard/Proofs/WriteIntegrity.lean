import RecordGuard.Proofs.Restoring
import RecordGuard.Proofs.Rewriting
import RecordGuard.Proofs.Steps
import RecordGuard.Proofs.Stripping

/-!
# Nobody writes where it is forbidden

A guard shields a path from a caller whose permissions to create and to update are denials or
scopes with an exclusive mask that excludes the path (`Guard.Shields`). However long such callers
go on, what stands at the path in a document has come from a document that was there at the start
(`Guard.exists_stored_of_run`). It has been written again with every change of its document, and a
double may have drifted on the way (`Guard.drift_of_run`); a value whose numbers read back as they
are written has not changed.
-/

namespace RecordGuard

open Json (Value)

namespace Permission

/-- The permission lets nobody write at the path. -/
def Protects (path : String) : Permission → Prop
  | .granted => False
  | .denied => True
  | .scoped scope =>
    ∃ mask, scope.projection = some mask ∧ mask.isExclusive = true ∧ mask.get? path = some false

theorem Protects.exists_mask {permission : Permission} {path : String}
    (h : permission.Protects path) (hne : permission ≠ .denied) :
    ∃ mask, permission.projection = some mask ∧ mask.isExclusive = true ∧
      mask.get? path = some false := by
  rcases permission with _ | _ | scope
  · exact h.elim
  · exact absurd rfl hne
  · obtain ⟨mask, hmask, hx, hp⟩ := h
    exact ⟨mask, projection_scoped hmask hx, hx, hp⟩

end Permission

/-- The caller can neither create nor update what stands at the path. -/
def Guard.Shields (guard : Guard) (path : String) (identity : Option Identity) : Prop :=
  ∀ permission, guard.resolver.resolve identity .create = .ok permission ∨
    guard.resolver.resolve identity .update = .ok permission → permission.Protects path

/-- What the operation brings along is a value as it is read: every object in the order of its
keys, every number one that can be read. -/
def Operation.IsReadable : Operation → Prop
  | .update _ payload => payload.IsCanonical ∧ payload.IsNormal
  | .save document => document.IsCanonical ∧ document.IsNormal
  | _ => True

/-- What a source is behind keeps it when it is written, and when an equal value takes its place. -/
structure Lasting (source : Value → Prop) : Prop where
  readBack : ∀ v, source v → source v.readBack
  replace : ∀ v w, source v → w.same v = true → w.IsNormal → source w

namespace Collection

/-- A value that has become of what stands at the path in a document. -/
def Origin (c : Collection) (path : String) (v : Value) : Prop :=
  ∃ stored ∈ c.documents, ∃ u, Path.get? stored path = some u ∧ u.Rewritten v

theorem lasting_origin (c : Collection) (path : String) : Lasting (c.Origin path) := by
  constructor
  · rintro v ⟨stored, hs, u, hu, huv⟩
    exact ⟨stored, hs, u, hu, huv.write⟩
  · rintro v w ⟨stored, hs, u, hu, huv⟩ hsame hw
    exact ⟨stored, hs, u, hu, huv.replace hsame hw⟩

/-- A source stands behind whatever is found at the path in a document. -/
def Traces (c : Collection) (path : String) (source : Value → Prop) : Prop :=
  ∀ document ∈ c.documents, ∀ v, Path.get? document path = some v → source v

variable {c c' : Collection} {path : String} {source : Value → Prop}

/-- Writing one document keeps the sources if they last through writing and the document has one. -/
theorem Traces.of_insert (h : c.Traces path source) (hl : Lasting source) {key : String}
    {written : Value} (hwritten : written.IsCanonical)
    (hv : ∀ v, Path.get? written path = some v → source v)
    (hentries : c'.entries = Entries.insert c.entries key written.compact) :
    c'.Traces path source := by
  intro document hd v hget
  rcases mem_documents_of_insert hentries hd with hread | hd
  · -- what is found in the new text has been written from what is found in the document
    rw [Value.eq_readBack_of_read? hwritten hread, Path.get?, Value.getSegments?_readBack] at hget
    obtain ⟨u, hu, rfl⟩ := Option.map_eq_some_iff.1 hget
    exact hl.readBack u (hv u hu)
  · exact h document hd v hget

end Collection

namespace Guard

variable {guard : Guard} {c c' : Collection} {identity : Option Identity} {path key : String}
  {keys : List String} {source : Value → Prop} {mask : Mask}

section

variable (hl : Lasting source) (hpath : Path.segments path = key :: keys) (hkey : key ≠ "")
  (hr : ∀ k ∈ key :: keys, isReserved guard.reserved k = false)

include hl hpath hkey hr

/-- A payload that is restored under an exclusive mask brings nothing new to an excluded path. -/
theorem traces_update (h : c.Traces path source) (hid : key ≠ c.idField) (hx : mask.isExclusive)
    (hp : mask.get? path = some false) {payload : Value} (hc : payload.IsCanonical)
    (hn : payload.IsNormal) {filter : Option Filter} {stored : Option Value}
    (hstored : c.findOne filter none = .ok stored) {members : Entries Value}
    (hmembers : mask.restoreValue guard.reserved "" stored payload = .object members)
    {name : String} {document : Value} (hd : document ∈ c.documents)
    (hentries : c'.entries = Entries.insert c.entries name
      (Collection.setMembers c.idField members document).compact) :
    c'.Traces path source := by
  have hmem : ∀ s, stored = some s → s ∈ c.documents := fun s hs =>
    Collection.mem_documents_of_findOne (hs ▸ hstored)
  have hcanonical : ∀ s, stored = some s → s.IsCanonical := fun s hs =>
    Collection.isCanonical_of_mem_documents (hmem s hs)
  have hrestored : (Value.object members).IsCanonical :=
    hmembers ▸ mask.isCanonical_restoreValue "" _ hcanonical payload hc
  refine h.of_insert hl (Collection.isCanonical_setMembers hrestored
    (Collection.isCanonical_of_mem_documents hd)) (fun v hv => ?_) hentries
  rw [Path.get?, hpath] at hv
  rcases Collection.getSegments?_setMembers hrestored.ordered hid hv with hv | hv
  · -- what comes with the payload is stored in the record that was read back
    rw [← hmembers] at hv
    rw [← Path.walk_segments hpath hkey, hpath] at hp
    obtain ⟨u, hu, hvu⟩ := Mask.exists_stored_of_restored hx hkey hr hp hc hcanonical hv
    obtain ⟨s, hs, hu⟩ := Option.bind_eq_some_iff.1 hu
    have hsource : source u := h s (hmem s hs) u (by rw [Path.get?, hpath]; exact hu)
    rcases hvu with rfl | ⟨hpayload, hsame⟩
    · exact hsource
    · exact hl.replace u v hsource hsame (hn.getSegments? hpayload)
  · -- what the update leaves alone stands in the record that is updated, which may be another one
    exact h document hd v (by rw [Path.get?, hpath]; exact hv)

/-- A document that is stripped by an exclusive mask has nothing at an excluded path. -/
theorem traces_save (h : c.Traces path source) (hid : key ≠ c.idField) (hx : mask.isExclusive)
    (hp : mask.get? path = some false) {document : Value} (hc : document.IsCanonical)
    {members : Entries Value}
    (hmembers : mask.stripValue guard.reserved "" document = .object members) {name : String}
    (hentries : c'.entries = Entries.insert c.entries name
      (Value.object (c.identified members)).compact) :
    c'.Traces path source := by
  have hstripped : (Value.object members).IsCanonical :=
    hmembers ▸ mask.isCanonical_stripValue guard.reserved "" document hc
  refine h.of_insert hl (Collection.isCanonical_identified hstripped) (fun v hv => ?_) hentries
  have hremoves : mask.removes (Path.walk "" (key :: keys)) = true := by
    rw [← hpath, Path.walk_segments hpath hkey, Mask.removes_eq hx, hp]
    rfl
  have hnone := mask.getSegments?_stripValue guard.reserved (List.cons_ne_nil key keys) hr
    hremoves document
  -- the identifier stands elsewhere
  have hmember : (Value.object (c.identified members)).member? key =
      (Value.object members).member? key := c.get?_identified members hid
  rw [Path.get?, hpath, Path.getSegments?_cons, hmember, ← Path.getSegments?_cons, ← hmembers,
    hnone] at hv
  cases hv

/-- A step of a caller from whom the path is shielded brings nothing new to the path. -/
theorem traces_step (h : c.Traces path source) (hid : key ≠ c.idField)
    (hshields : guard.Shields path identity) {operation : Operation}
    (hop : operation.IsReadable) : (guard.step c identity operation).2.Traces path source := by
  rcases guard.collection_step_cases c identity operation with
    hstep | ⟨filter, payload, permission, stored, members, name, document, rfl, hperm, hrecord,
      hwritable, hfirst, hstep⟩ | ⟨name, hstep⟩ |
    ⟨document, permission, members, name, c', rfl, hperm, hcreatable, -, hentries, hstep⟩
  · rw [hstep]
    exact h
  · obtain ⟨hresolve, hne⟩ := Resolver.require_eq_ok_iff.1 hperm
    obtain ⟨mask, hmask, hx, hp⟩ := (hshields permission (Or.inr hresolve)).exists_mask hne
    rw [guard.writable_eq hmask] at hwritable
    rcases Collection.recordFor_cases hrecord with ⟨hnone, -⟩ | hstored
    · rw [hmask] at hnone
      cases hnone
    · have hd := Collection.mem_documents_of_firstMatch hfirst
      rw [hstep]
      exact traces_update hl hpath hkey hr h hid hx hp hop.1 hop.2 hstored hwritable hd rfl
  · rw [hstep]
    exact fun document hd => h document (c.documents_erase_subset name hd)
  · obtain ⟨hresolve, hne⟩ := Resolver.require_eq_ok_iff.1 hperm
    obtain ⟨mask, hmask, hx, hp⟩ := (hshields permission (Or.inl hresolve)).exists_mask hne
    rw [guard.creatable_eq hmask] at hcreatable
    rw [hstep]
    exact traces_save hl hpath hkey hr h hid hx hp hop.1 hcreatable hentries

theorem traces_run (h : c.Traces path source) (hid : key ≠ c.idField)
    {operations : List (Option Identity × Operation)}
    (hops : ∀ operation ∈ operations, guard.Shields path operation.1 ∧ operation.2.IsReadable) :
    (guard.run c operations).Traces path source := by
  induction operations generalizing c with
  | nil => exact h
  | cons operation operations ih =>
    obtain ⟨hshields, hop⟩ := hops operation List.mem_cons_self
    have hstep := traces_step hl hpath hkey hr h hid hshields hop
    refine ih hstep ?_ fun other ho => hops other (List.mem_cons_of_mem _ ho)
    rw [idField_step]
    exact hid

end

/-- After any run of callers from whom a path is shielded, what stands at the path in a document is
what has become of a value that stood there in a document before the run, and an equal value if
its numbers read back as they are written. -/
theorem exists_stored_of_run (hpath : Path.segments path = key :: keys) (hkey : key ≠ "")
    (hid : key ≠ c.idField) (hr : ∀ k ∈ key :: keys, isReserved guard.reserved k = false)
    {operations : List (Option Identity × Operation)}
    (hops : ∀ operation ∈ operations, guard.Shields path operation.1 ∧ operation.2.IsReadable)
    {document v : Value} (hd : document ∈ (guard.run c operations).documents)
    (hv : Path.get? document path = some v) :
    ∃ stored ∈ c.documents, ∃ u, Path.get? stored path = some u ∧ u.Rewritten v ∧
      (u.IsSteady → v.same u = true) := by
  -- before the run every value is its own origin
  have hstart : c.Traces path (c.Origin path) := fun document hd v hv =>
    ⟨document, hd, v, hv, .refl⟩
  obtain ⟨stored, hs, u, hu, huv⟩ :=
    traces_run (c.lasting_origin path) hpath hkey hr hstart hid hops document hd v hv
  exact ⟨stored, hs, u, hu, huv, fun hsteady => (huv.same_of_isSteady hsteady).1⟩

/-! ### A balance -/

/-- The guard of accounts whose balance no user writes. -/
def ofAccounts : Guard :=
  let rule := Rule.scoped ⟨none, some (.compact "-balance")⟩
  ofRole "Account" "USER" ⟨some rule, some (.flag true), some rule, none⟩

/-- A collection with one account. -/
def accounts (balance : Value) : Collection :=
  .ofDocuments [.object [("_id", .string "1"), ("balance", balance), ("name", .string "ann")]]

theorem shields_balance : ofAccounts.Shields "balance" (some (.ofRoles ["USER"])) := by
  have hscope : ∀ action, action = .create ∨ action = .update →
      ofAccounts.resolver.resolve (some (.ofRoles ["USER"])) action =
        .ok (.scoped ⟨[], some ⟨[("balance", false)]⟩⟩) := by
    rintro action (rfl | rfl) <;> rfl
  intro permission h
  have hperm : permission = .scoped ⟨[], some ⟨[("balance", false)]⟩⟩ := by
    rcases h with h | h
    · rw [hscope _ (Or.inl rfl)] at h
      cases h
      rfl
    · rw [hscope _ (Or.inr rfl)] at h
      cases h
      rfl
  rw [hperm]
  exact ⟨_, rfl, rfl, rfl⟩

/-- A user who sends a balance along is given a new name only. -/
theorem exists_stored_of_run_of_account :
    let c := accounts (.integer 5)
    let user := some (Identity.ofRoles ["USER"])
    let payload := Value.object [("balance", .integer 6), ("name", .string "bob")]
    let operations := [(user, Operation.update none payload)]
    Path.segments "balance" = ["balance"] ∧ "balance" ≠ "" ∧ "balance" ≠ c.idField ∧
      (∀ k ∈ ["balance"], isReserved ofAccounts.reserved k = false) ∧
      (∀ operation ∈ operations,
        ofAccounts.Shields "balance" operation.1 ∧ operation.2.IsReadable) ∧
      ∃ document ∈ (ofAccounts.run c operations).documents, ∃ v,
        Path.get? document "balance" = some v ∧ v.same (.integer 5) = true ∧
        ∃ stored ∈ c.documents, ∃ u, Path.get? stored "balance" = some u ∧ u.Rewritten v ∧
          (u.IsSteady → v.same u = true) := by
  intro c user payload operations
  have hpath : Path.segments "balance" = ["balance"] := by decide +kernel
  have hid : "balance" ≠ c.idField := by decide
  have hr : ∀ k ∈ ["balance"], isReserved ofAccounts.reserved k = false := by decide
  have hnormal : payload.IsNormal := by
    simp [payload, Value.IsNormal, Value.numbers, Value.numbersOfMembers, Value.integer,
      Json.Number.IsNormal]
  have hpayload : payload.IsCanonical ∧ payload.IsNormal := ⟨by decide, hnormal⟩
  have hops : ∀ operation ∈ operations,
      ofAccounts.Shields "balance" operation.1 ∧ operation.2.IsReadable := by
    intro operation ho
    rw [List.mem_singleton.1 ho]
    exact ⟨shields_balance, hpayload⟩
  have hfound : ((ofAccounts.run c operations).documents.any fun document =>
      (Path.get? document "balance").any fun v => v.same (.integer 5)) = true := by
    decide +kernel
  simp only [List.any_eq_true, Option.any_eq_true] at hfound
  obtain ⟨document, hd, v, hv, hsame⟩ := hfound
  exact ⟨hpath, by decide, hid, hr, hops, document, hd, v, hv, hsame,
    exists_stored_of_run hpath (by decide) hid hr hops hd hv⟩

/-- The double `7.100000000000002e+71` is another one after its account has been given a name. -/
theorem drift_of_run :
    let c := accounts (.number (.double ⟨false, 7239009644185864, 186⟩))
    let user := some (Identity.ofRoles ["USER"])
    let operations := [(user, Operation.update none (.object [("name", .string "bob")]))]
    ofAccounts.Shields "balance" user ∧
      ∃ document ∈ (ofAccounts.run c operations).documents, ∃ v,
        Path.get? document "balance" = some v ∧
        ∀ stored ∈ c.documents, ∀ u, Path.get? stored "balance" = some u → v.same u = false := by
  intro c user operations
  have hdrift : ((ofAccounts.run c operations).documents.any fun document =>
      (Path.get? document "balance").any fun v => c.documents.all fun stored =>
        (Path.get? stored "balance").all fun u => !v.same u) = true := by
    decide +kernel
  refine ⟨shields_balance, ?_⟩
  simpa only [List.any_eq_true, Option.any_eq_true, List.all_eq_true, Option.all_eq_true,
    Bool.not_eq_true'] using hdrift

end Guard

end RecordGuard
