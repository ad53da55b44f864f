import RecordGuard.Proofs.Restoring
import RecordGuard.Proofs.Steps
import RecordGuard.Proofs.UntouchedParts

/-!
# What a removal hands back

The hook of a removal puts the selection of the caller's mask into the query, as that of a search
does, but a collection removes by the filter alone. `Guard.remove_shown_iff` says that the document
is handed back as it was stored, and for which documents this is what the selection shows. Stored
documents are objects (`Collection.HoldsObjects`), and stay so throughout a run
(`Guard.holdsObjects_run`).
-/

namespace RecordGuard

open Json (Value)
open Json.Value (leaves)

/-! ### Stored documents -/

/-- Every document in the collection is an object. -/
def Collection.HoldsObjects (c : Collection) : Prop :=
  ∀ document ∈ c.documents, document.isObject = true

theorem Json.Value.exists_of_isObject {v : Value} (h : v.isObject = true) :
    ∃ members, v = .object members := by
  cases v with
  | object members => exact ⟨members, rfl⟩
  | _ => cases h

theorem Collection.holdsObjects_of_insert {c c' : Collection} (h : c.HoldsObjects) {key : String}
    {members : Entries Value}
    (hentries : c'.entries = Entries.insert c.entries key (Value.object members).compact) :
    c'.HoldsObjects := by
  intro document hd
  rcases mem_documents_of_insert hentries hd with hread | hd
  · obtain ⟨-, rfl⟩ := Value.read?_compact_eq_some_iff.1 hread
    rfl
  · exact h document hd

namespace Guard

variable {guard : Guard} {c : Collection} {identity : Option Identity} {scope : Scope} {mask : Mask}

theorem holdsObjects_step (h : c.HoldsObjects) (operation : Operation) :
    (guard.step c identity operation).2.HoldsObjects := by
  rcases guard.collection_step_cases c identity operation with
    hstep | ⟨_, _, _, _, update, key, document, -, -, -, -, hfirst, hstep⟩ | ⟨key, hstep⟩ |
    ⟨_, _, _, key, c', -, -, -, -, hentries, hstep⟩
  · rw [hstep]
    exact h
  · obtain ⟨members, rfl⟩ := Value.exists_of_isObject
      (h document (Collection.mem_documents_of_firstMatch hfirst))
    rw [hstep]
    exact Collection.holdsObjects_of_insert h rfl
  · rw [hstep]
    exact fun document hd => h document (c.documents_erase_subset key hd)
  · rw [hstep]
    exact Collection.holdsObjects_of_insert h hentries

/-- Whatever is done, only objects are stored. -/
theorem holdsObjects_run (h : c.HoldsObjects) (operations : List (Option Identity × Operation)) :
    (guard.run c operations).HoldsObjects := by
  induction operations generalizing c with
  | nil => exact h
  | cons operation operations ih => exact ih (holdsObjects_step h operation.2)

/-! ### Removing -/

/-- A removal for a caller with a scope goes through, with the first document that the filter and
the scope accept, as it is stored, unless a text on the way cannot be read. -/
theorem remove_cases (hperm : guard.resolver.resolve identity .delete = .ok (.scoped scope))
    (filter : Option Filter) :
    let narrowed := Filter.conjoin filter (Permission.scoped scope).filter
    (∃ e, c.firstMatch narrowed = .error e ∧
        guard.remove c identity filter = .error (.collection e)) ∨
      (c.firstMatch narrowed = .ok none ∧ guard.remove c identity filter = .ok (none, c)) ∨
      ∃ key document, c.firstMatch narrowed = .ok (some (key, document)) ∧
        guard.remove c identity filter =
          .ok (some document, { c with entries := Entries.erase c.entries key }) := by
  intro narrowed
  have hrequire : guard.resolver.require identity .delete = .ok (.scoped scope) :=
    Resolver.require_eq_ok_iff.2 ⟨hperm, Permission.noConfusion⟩
  rw [remove_eq, hrequire]
  dsimp only
  rw [Collection.deleteOne]
  rcases hfirst : c.firstMatch narrowed with e | _ | ⟨key, document⟩
  · exact Or.inl ⟨e, rfl, rfl⟩
  · exact Or.inr (Or.inl ⟨rfl, rfl⟩)
  · exact Or.inr (Or.inr ⟨key, document, rfl, rfl⟩)

/-- A removal by a caller whose mask has entries narrows its query to the selection of the mask, and
hands back the document it removes as it was stored. This is the document as the selection shows it
exactly if all parts of the document come through the selection. -/
theorem remove_shown_iff (hperm : guard.resolver.resolve identity .delete = .ok (.scoped scope))
    (hmask : scope.projection = some mask) (hne : mask.isEmpty = false)
    (hc : c.HoldsObjects) (filter : Option Filter) :
    ∃ query, after ((guard.hooks c).beforeDelete identity) ⟨filter, none⟩ = .ok query ∧
      query.selection = some (Selection.ofMask mask) ∧
      ((∃ e, c.firstMatch query.filter = .error e ∧
          guard.remove c identity filter = .error (.collection e)) ∨
        (c.firstMatch query.filter = .ok none ∧ guard.remove c identity filter = .ok (none, c)) ∨
        ∃ key document, c.firstMatch query.filter = .ok (some (key, document)) ∧
          guard.remove c identity filter =
            .ok (some document, { c with entries := Entries.erase c.entries key }) ∧
          ((Selection.ofMask mask).apply c.idField document = document ↔
            ∀ part ∈ document.parts,
              (Selection.ofMask mask).retains c.idField document part = true)) := by
  have hrequire : guard.resolver.require identity .delete = .ok (.scoped scope) :=
    Resolver.require_eq_ok_iff.2 ⟨hperm, Permission.noConfusion⟩
  refine ⟨Hooks.narrowed (.scoped scope) ⟨filter, none⟩, ?_, ?_, ?_⟩
  · rw [Hooks.beforeDelete, after_scopeQuery, hrequire]
  · rw [Hooks.selection_narrowed, Permission.projection_of_isEmpty hmask hne]
    rfl
  · rw [Hooks.filter_narrowed]
    refine (remove_cases hperm filter).imp id (Or.imp id ?_)
    rintro ⟨key, document, hfirst, hremove⟩
    have hd := Collection.mem_documents_of_firstMatch hfirst
    obtain ⟨members, rfl⟩ := Value.exists_of_isObject (hc document hd)
    exact ⟨key, _, hfirst, hremove, Selection.apply_eq_self_iff _ c.idField
      (Collection.isCanonical_of_mem_documents hd)⟩

/-! ### A password -/

/-- The guard of users who may be removed, but without a look at their passwords. -/
def ofPasswords : Guard :=
  ofRole "User" "USER" ⟨none, none, none, some (.scoped ⟨none, some (.compact "-password")⟩)⟩

/-- A user with a password. -/
def holder : Value :=
  .object [("_id", .string "1"), ("name", .string "Ann"), ("password", .string "secret")]

/-- The collection of this one user. -/
def holders : Collection := .ofDocuments [holder]

theorem mapM_load_holders : holders.entries.mapM Collection.load = .ok [("1", holder)] :=
  Collection.mapM_load_of_comesBack rfl (by decide)

theorem holdsObjects_holders : holders.HoldsObjects := by
  intro document hd
  rw [Collection.documents_eq_of_mapM mapM_load_holders] at hd
  rw [List.mem_singleton.1 hd]
  rfl

theorem resolve_ofPasswords :
    ofPasswords.resolver.resolve (some (.ofRoles ["USER"])) .delete =
      .ok (.scoped ⟨[], some ⟨[("password", false)]⟩⟩) := rfl

theorem remove_shown_of_password :
    let user := some (Identity.ofRoles ["USER"])
    let mask : Mask := ⟨[("password", false)]⟩
    let named := some (Filter.eq "name" (.string "Ann"))
    ofPasswords.resolver.resolve user .delete = .ok (.scoped ⟨[], some mask⟩) ∧
      mask.isEmpty = false ∧ holders.HoldsObjects ∧
      ∃ query, after ((ofPasswords.hooks holders).beforeDelete user) ⟨named, none⟩ = .ok query ∧
        query.selection = some (Selection.ofMask mask) ∧
        ((∃ e, holders.firstMatch query.filter = .error e ∧
            ofPasswords.remove holders user named = .error (.collection e)) ∨
          (holders.firstMatch query.filter = .ok none ∧
            ofPasswords.remove holders user named = .ok (none, holders)) ∨
          ∃ key document, holders.firstMatch query.filter = .ok (some (key, document)) ∧
            ofPasswords.remove holders user named =
              .ok (some document, { holders with entries := Entries.erase holders.entries key }) ∧
            ((Selection.ofMask mask).apply holders.idField document = document ↔
              ∀ part ∈ document.parts,
                (Selection.ofMask mask).retains holders.idField document part = true)) := by
  intro user mask named
  exact ⟨resolve_ofPasswords, rfl, holdsObjects_holders,
    remove_shown_iff resolve_ofPasswords rfl rfl holdsObjects_holders named⟩

/-- A user who removes a user gets the password that the selection of the query hides. -/
theorem password_given_of_removal :
    let user := some (Identity.ofRoles ["USER"])
    let mask : Mask := ⟨[("password", false)]⟩
    let leaf : Leaf := (["password"], .string "secret")
    ofPasswords.resolver.resolve user .delete = .ok (.scoped ⟨[], some mask⟩) ∧
      ∃ removed c', ofPasswords.remove holders user none = .ok (some removed, c') ∧
        removed ≠ (Selection.ofMask mask).apply holders.idField removed ∧
        leaf ∈ leaves removed ∧
        leaf ∉ leaves ((Selection.ofMask mask).apply holders.idField removed) := by
  intro user mask leaf
  have hshown : leaves ((Selection.ofMask mask).apply holders.idField holder) =
      [(["_id"], .string "1"), (["name"], .string "Ann")] := rfl
  have hgiven : leaf ∈ leaves holder := by
    show leaf ∈ [(["_id"], .string "1"), (["name"], .string "Ann"), leaf]
    simp
  have hhidden : leaf ∉ leaves ((Selection.ofMask mask).apply holders.idField holder) := by
    rw [hshown]
    simp [leaf]
  have hfirst : holders.firstMatch none = .ok (some ("1", holder)) :=
    Collection.firstMatch_eq_of_mapM mapM_load_holders
  rcases remove_cases resolve_ofPasswords none with
    ⟨e, herror, -⟩ | ⟨hnone, -⟩ | ⟨key, document, hsome, hremove⟩
  · cases hfirst.symm.trans herror
  · cases hfirst.symm.trans hnone
  · cases hfirst.symm.trans hsome
    refine ⟨resolve_ofPasswords, holder, _, hremove, fun heq => ?_, hgiven, hhidden⟩
    rw [← heq] at hhidden
    exact hhidden hgiven

end Guard

end RecordGuard
