import RecordGuard.Proofs.CollectionUpdates
import RecordGuard.Proofs.GuardedOperations

/-!
# What one step does

`step_find` and `step_findOne` say what searches answer, `step_update_cases`, `step_remove_cases`
and `step_save_cases` list what the other operations can answer and do, and `collection_step_cases`
is what any step can do to the collection. Every step keeps the entries ordered and the name of the
identifier (`ordered_step`, `idField_step`).
-/

namespace RecordGuard.Guard

open Json (Value)

variable (guard : Guard) (c : Collection) (identity : Option Identity)

theorem step_find (filter : Option Filter) (sort : List SortKey) (limit : Option Nat) :
    guard.step c identity (.find filter sort limit) =
      match guard.resolver.require identity .read with
      | .ok permission =>
        let query := Hooks.narrowed permission ⟨filter, none⟩
        (((c.find query.filter
          { selection := query.selection, sort := sort, limit := limit }).map
            Reply.documents).mapError .collection, c)
      | .error e => (.error (.guard e), c) := by
  rw [step, find_eq]
  cases guard.resolver.require identity .read with
  | error e => rfl
  | ok permission =>
    dsimp only
    cases c.find _ _ <;> rfl

theorem step_findOne (filter : Option Filter) (selection : Option Selection) :
    guard.step c identity (.findOne filter selection) =
      match guard.resolver.require identity .read with
      | .ok permission =>
        let query := Hooks.narrowed permission ⟨filter, selection⟩
        (((c.findOne query.filter query.selection).map Reply.document).mapError .collection, c)
      | .error e => (.error (.guard e), c) := by
  rw [step, findOne_eq]
  cases guard.resolver.require identity .read with
  | error e => rfl
  | ok permission =>
    dsimp only
    cases c.findOne _ _ <;> rfl

theorem step_update_cases (filter : Option Filter) (payload : Value) :
    (∃ e, guard.step c identity (.update filter payload) = (.error e, c)) ∨
      ∃ permission stored, guard.resolver.require identity .update = .ok permission ∧
        c.recordFor permission filter = .ok stored ∧
        (c.firstMatch (Filter.conjoin filter permission.filter) = .ok none ∧
            guard.step c identity (.update filter payload) = (.ok (.document none), c) ∨
          ∃ members key document,
            guard.writable permission stored payload = .object members ∧
            c.firstMatch (Filter.conjoin filter permission.filter) = .ok (some (key, document)) ∧
            guard.step c identity (.update filter payload) =
              (.ok (.document (some (Collection.setMembers c.idField members document))),
                { c with
                  entries := Entries.insert c.entries key
                    (Collection.setMembers c.idField members document).compact })) := by
  rw [step, update_eq]
  cases guard.resolver.require identity .update with
  | error e => exact Or.inl ⟨_, rfl⟩
  | ok permission =>
    dsimp only
    cases hstored : c.recordFor permission filter with
    | error e => exact Or.inl ⟨_, rfl⟩
    | ok stored =>
      dsimp only
      cases hupdate : c.updateOne (Filter.conjoin filter permission.filter)
          (guard.writable permission stored payload) with
      | error e => exact Or.inl ⟨_, rfl⟩
      | ok result =>
        obtain ⟨updated, c'⟩ := result
        refine Or.inr ⟨permission, stored, rfl, hstored, ?_⟩
        rcases Collection.exists_of_updateOne hupdate with
          ⟨hfirst, rfl, rfl⟩ | ⟨members, key, document, hpayload, hfirst, rfl, rfl⟩
        · exact Or.inl ⟨hfirst, rfl⟩
        · exact Or.inr ⟨members, key, document, hpayload, hfirst, rfl⟩

theorem step_remove_cases (filter : Option Filter) :
    (∃ e, guard.step c identity (.remove filter) = (.error e, c)) ∨
      ∃ permission, guard.resolver.require identity .delete = .ok permission ∧
        (c.firstMatch (Filter.conjoin filter permission.filter) = .ok none ∧
            guard.step c identity (.remove filter) = (.ok (.document none), c) ∨
          ∃ key document,
            c.firstMatch (Filter.conjoin filter permission.filter) = .ok (some (key, document)) ∧
            guard.step c identity (.remove filter) =
              (.ok (.document (some document)),
                { c with entries := Entries.erase c.entries key })) := by
  rw [step, remove_eq]
  cases guard.resolver.require identity .delete with
  | error e => exact Or.inl ⟨_, rfl⟩
  | ok permission =>
    dsimp only
    cases hdelete : c.deleteOne (Filter.conjoin filter permission.filter) with
    | error e => exact Or.inl ⟨_, rfl⟩
    | ok result =>
      obtain ⟨removed, c'⟩ := result
      refine Or.inr ⟨permission, rfl, ?_⟩
      rcases Collection.exists_of_deleteOne hdelete with
        ⟨hfirst, rfl, rfl⟩ | ⟨key, document, hfirst, rfl, rfl⟩
      · exact Or.inl ⟨hfirst, rfl⟩
      · exact Or.inr ⟨key, document, hfirst, rfl⟩

theorem step_save_cases (document : Value) :
    (∃ e, guard.step c identity (.save document) = (.error e, c)) ∨
      ∃ permission members key c', guard.resolver.require identity .create = .ok permission ∧
        guard.creatable permission document = .object members ∧
        Entries.get? c.entries key = none ∧ c'.idField = c.idField ∧
        c'.entries =
          Entries.insert c.entries key (Value.object (c.identified members)).compact ∧
        guard.step c identity (.save document) =
          (.ok (.document (some (.object (c.identified members)))), c') := by
  rw [step, save_eq]
  cases guard.resolver.require identity .create with
  | error e => exact Or.inl ⟨_, rfl⟩
  | ok permission =>
    dsimp only
    cases hinsert : c.insert (guard.creatable permission document) with
    | error e => exact Or.inl ⟨_, rfl⟩
    | ok result =>
      obtain ⟨added, c'⟩ := result
      obtain ⟨members, key, hcreatable, rfl, hfree, hid, hentries⟩ :=
        Collection.exists_of_insert hinsert
      exact Or.inr ⟨permission, members, key, c', rfl, hcreatable, hfree, hid, hentries, rfl⟩

/-- A step leaves the collection as it is, or writes the first document that its caller may update,
or drops an entry, or adds one under a free key. -/
theorem collection_step_cases (operation : Operation) :
    (guard.step c identity operation).2 = c ∨
      (∃ filter payload permission stored members key document,
        operation = .update filter payload ∧
        guard.resolver.require identity .update = .ok permission ∧
        c.recordFor permission filter = .ok stored ∧
        guard.writable permission stored payload = .object members ∧
        c.firstMatch (Filter.conjoin filter permission.filter) = .ok (some (key, document)) ∧
        (guard.step c identity operation).2 =
          { c with
            entries := Entries.insert c.entries key
              (Collection.setMembers c.idField members document).compact }) ∨
      (∃ key, (guard.step c identity operation).2 =
        { c with
          entries := Entries.erase c.entries key }) ∨
      ∃ document permission members key c', operation = .save document ∧
        guard.resolver.require identity .create = .ok permission ∧
        guard.creatable permission document = .object members ∧
        c'.idField = c.idField ∧
        c'.entries =
          Entries.insert c.entries key (Value.object (c.identified members)).compact ∧
        (guard.step c identity operation).2 = c' := by
  cases operation with
  | find filter sort limit =>
    rw [step_find]
    cases guard.resolver.require identity .read <;> exact Or.inl rfl
  | findOne filter selection =>
    rw [step_findOne]
    cases guard.resolver.require identity .read <;> exact Or.inl rfl
  | update filter payload =>
    rcases guard.step_update_cases c identity filter payload with
      ⟨e, hstep⟩ | ⟨permission, stored, hperm, hstored,
        ⟨-, hstep⟩ | ⟨members, key, document, hw, hfirst, hstep⟩⟩
    · exact Or.inl (by rw [hstep])
    · exact Or.inl (by rw [hstep])
    · exact Or.inr (Or.inl ⟨filter, payload, permission, stored, members, key, document, rfl,
        hperm, hstored, hw, hfirst, by rw [hstep]⟩)
  | remove filter =>
    rcases guard.step_remove_cases c identity filter with
      ⟨e, hstep⟩ | ⟨permission, -, ⟨-, hstep⟩ | ⟨key, document, -, hstep⟩⟩
    · exact Or.inl (by rw [hstep])
    · exact Or.inl (by rw [hstep])
    · exact Or.inr (Or.inr (Or.inl ⟨key, by rw [hstep]⟩))
  | save document =>
    rcases guard.step_save_cases c identity document with
      ⟨e, hstep⟩ | ⟨permission, members, key, c', hperm, hw, -, hid, hentries, hstep⟩
    · exact Or.inl (by rw [hstep])
    · exact Or.inr (Or.inr (Or.inr
        ⟨document, permission, members, key, c', rfl, hperm, hw, hid, hentries, by rw [hstep]⟩))

/-! ### What every step keeps -/

theorem ordered_step {c : Collection} (h : Entries.Ordered c.entries) (operation : Operation) :
    Entries.Ordered (guard.step c identity operation).2.entries := by
  rcases guard.collection_step_cases c identity operation with
    hstep | ⟨_, _, _, _, _, key, _, _, _, _, _, _, hstep⟩ | ⟨key, hstep⟩ |
    ⟨_, _, _, key, c', _, _, _, _, hentries, hstep⟩
  · rw [hstep]
    exact h
  · rw [hstep]
    exact Entries.ordered_insert h key _
  · rw [hstep]
    exact Entries.ordered_erase h key
  · rw [hstep, hentries]
    exact Entries.ordered_insert h key _

/-- Entries that are ordered stay so throughout a run. -/
theorem ordered_run {c : Collection} (h : Entries.Ordered c.entries)
    (operations : List (Option Identity × Operation)) :
    Entries.Ordered (guard.run c operations).entries := by
  induction operations generalizing c with
  | nil => exact h
  | cons operation operations ih => exact ih (guard.ordered_step operation.1 h operation.2)

theorem idField_step (operation : Operation) :
    (guard.step c identity operation).2.idField = c.idField := by
  rcases guard.collection_step_cases c identity operation with
    hstep | ⟨_, _, _, _, _, _, _, _, _, _, _, _, hstep⟩ | ⟨_, hstep⟩ |
    ⟨_, _, _, _, c', _, _, _, hid, _, hstep⟩
  · rw [hstep]
  · rw [hstep]
  · rw [hstep]
  · rw [hstep, hid]

end RecordGuard.Guard
