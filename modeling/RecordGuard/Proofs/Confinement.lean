import RecordGuard.Proofs.Steps

/-!
# Rows stay in scope

A caller reaches the documents that match the filter of the operation and lie in the rows of the
permission (`Permission.reaches`). `Guard.Confined` says what an operation may answer and change:
a search gives out selections of documents that are reached, an update or a removal touches the
first entry that is reached and no other, a new document takes a free key, and a failure changes
nothing. `Guard.confined_after_run` is this law for every step of every run.
-/

namespace RecordGuard

open Json (Value)

namespace Permission

/-- Whether a document matches a filter and lies in the rows of the permission. -/
def reaches (permission : Permission) (filter : Option Filter) (document : Value) : Bool :=
  Filter.accepts filter document && permission.covers document

theorem accepts_conjoin_filter (permission : Permission) (filter : Option Filter)
    (document : Value) :
    Filter.accepts (Filter.conjoin filter permission.filter) document =
      permission.reaches filter document := by
  rw [Filter.accepts_conjoin, accepts_filter, reaches]

end Permission

namespace Collection

/-- The text `text` under `key` is the first one whose document `reached` holds of: the documents in
front of it have been read, and it does not hold of them. -/
structure FirstAt (c : Collection) (reached : Value → Bool) (before : Entries String)
    (key text : String) (document : Value) (after : Entries String) : Prop where
  entries_eq : c.entries = before ++ (key, text) :: after
  read_eq : Value.read? text = some document
  reached_document : reached document = true
  not_reached : ∀ entry ∈ before, ∃ passed, Value.read? entry.2 = some passed ∧
    reached passed = false

theorem exists_firstAt {c : Collection} {permission : Permission} {filter : Option Filter}
    {key : String} {document : Value}
    (h : c.firstMatch (Filter.conjoin filter permission.filter) = .ok (some (key, document))) :
    ∃ before text after, c.FirstAt (permission.reaches filter) before key text document after := by
  obtain ⟨before, text, after, hentries, hread, haccepts, hbefore⟩ :=
    exists_split_of_firstMatch h
  refine ⟨before, text, after, hentries, hread, ?_, fun entry he => ?_⟩
  · rw [← Permission.accepts_conjoin_filter]
    exact haccepts
  · obtain ⟨passed, hpassed, hmisses⟩ := hbefore entry he
    rw [Permission.accepts_conjoin_filter] at hmisses
    exact ⟨passed, hpassed, hmisses⟩

theorem not_reached_of_firstMatch {c : Collection} {permission : Permission}
    {filter : Option Filter}
    (h : c.firstMatch (Filter.conjoin filter permission.filter) = .ok none) :
    ∀ document ∈ c.documents, permission.reaches filter document = false := by
  intro document hd
  rw [← Permission.accepts_conjoin_filter]
  exact not_accepts_of_firstMatch h hd

end Collection

namespace Guard

variable (guard : Guard) (c : Collection) (identity : Option Identity)

/-- What is given out is selected from documents that the permission reaches, as the hook narrows
the selection. -/
def SelectedFrom (permission : Permission) (query : Query) (given : Value) : Prop :=
  ∃ document ∈ c.documents, permission.reaches query.filter document = true ∧
    given = c.give (Hooks.narrowed permission query).selection document

/-- What an operation of a caller may answer and leave behind. -/
def Confined : Operation → Except OperationError Reply × Collection → Prop
  | _, (.error _, c') => c' = c
  | .find filter _ _, (.ok reply, c') =>
    c' = c ∧ ∃ permission found, guard.resolver.require identity .read = .ok permission ∧
      reply = .documents found ∧ ∀ given ∈ found, SelectedFrom c permission ⟨filter, none⟩ given
  | .findOne filter selection, (.ok reply, c') =>
    c' = c ∧ ∃ permission found, guard.resolver.require identity .read = .ok permission ∧
      reply = .document found ∧
        ∀ given ∈ found, SelectedFrom c permission ⟨filter, selection⟩ given
  | .update filter _, (.ok reply, c') =>
    ∃ permission, guard.resolver.require identity .update = .ok permission ∧
      ((∀ document ∈ c.documents, permission.reaches filter document = false) ∧
          reply = .document none ∧ c' = c ∨
        ∃ before key text document after updated,
          c.FirstAt (permission.reaches filter) before key text document after ∧
          reply = .document (some updated) ∧
          c' = { c with
            entries := before ++ (key, updated.compact) :: after })
  | .remove filter, (.ok reply, c') =>
    ∃ permission, guard.resolver.require identity .delete = .ok permission ∧
      ((∀ document ∈ c.documents, permission.reaches filter document = false) ∧
          reply = .document none ∧ c' = c ∨
        ∃ before key text document after,
          c.FirstAt (permission.reaches filter) before key text document after ∧
          reply = .document (some document) ∧
          c' = { c with
            entries := before ++ after })
  | .save _, (.ok reply, c') =>
    (∃ permission, guard.resolver.require identity .create = .ok permission) ∧
      ∃ before key added after, c.entries = before ++ after ∧ Entries.get? c.entries key = none ∧
        reply = .document (some added) ∧ c'.idField = c.idField ∧
        c'.entries = before ++ (key, added.compact) :: after

variable {c}

theorem confined_of_error {operation : Operation} {e : OperationError} :
    guard.Confined c identity operation (.error e, c) := by
  cases operation <;> rfl

theorem confined_find (filter : Option Filter) (sort : List SortKey) (limit : Option Nat) :
    guard.Confined c identity (.find filter sort limit)
      (guard.step c identity (.find filter sort limit)) := by
  rw [step_find]
  cases hperm : guard.resolver.require identity .read with
  | error e => exact guard.confined_of_error identity
  | ok permission =>
    dsimp only
    cases hfind : c.find (Hooks.narrowed permission ⟨filter, none⟩).filter
        { selection := (Hooks.narrowed permission ⟨filter, none⟩).selection, sort := sort,
          limit := limit } with
    | error e => exact guard.confined_of_error identity
    | ok found =>
      refine ⟨rfl, permission, found, hperm, rfl, fun given hg => ?_⟩
      obtain ⟨document, hd, haccepts, hgiven⟩ := Collection.exists_of_mem_find hfind hg
      rw [Hooks.accepts_narrowed] at haccepts
      exact ⟨document, hd, haccepts, hgiven⟩

theorem confined_findOne (filter : Option Filter) (selection : Option Selection) :
    guard.Confined c identity (.findOne filter selection)
      (guard.step c identity (.findOne filter selection)) := by
  rw [step_findOne]
  cases hperm : guard.resolver.require identity .read with
  | error e => exact guard.confined_of_error identity
  | ok permission =>
    dsimp only
    cases hfind : c.findOne (Hooks.narrowed permission ⟨filter, selection⟩).filter
        (Hooks.narrowed permission ⟨filter, selection⟩).selection with
    | error e => exact guard.confined_of_error identity
    | ok found =>
      refine ⟨rfl, permission, found, hperm, rfl, fun given hg => ?_⟩
      obtain ⟨matched, hfirst, heq⟩ := bind_eq_ok_iff.1 hfind
      cases heq
      obtain ⟨⟨key, document⟩, rfl, hgiven⟩ := Option.map_eq_some_iff.1 hg
      rw [Hooks.filter_narrowed] at hfirst
      obtain ⟨before, text, after, hat⟩ := Collection.exists_firstAt hfirst
      exact ⟨document, Collection.mem_documents_of_firstMatch hfirst, hat.reached_document,
        hgiven.symm⟩

theorem confined_update (h : Entries.Ordered c.entries) (filter : Option Filter)
    (payload : Value) :
    guard.Confined c identity (.update filter payload)
      (guard.step c identity (.update filter payload)) := by
  rcases guard.step_update_cases c identity filter payload with
    ⟨e, hstep⟩ | ⟨permission, _, hperm, -,
      ⟨hfirst, hstep⟩ | ⟨members, key, document, -, hfirst, hstep⟩⟩
  · rw [hstep]
    exact guard.confined_of_error identity
  · rw [hstep]
    exact ⟨permission, hperm, Or.inl ⟨Collection.not_reached_of_firstMatch hfirst, rfl, rfl⟩⟩
  · obtain ⟨before, text, after, hat⟩ := Collection.exists_firstAt hfirst
    -- in ordered entries an insertion under a key that is there replaces its entry in place
    have hordered := hat.entries_eq ▸ h
    rw [hstep]
    refine ⟨permission, hperm, Or.inr ⟨before, key, text, document, after, _, hat, rfl, ?_⟩⟩
    rw [hat.entries_eq, Entries.insert_append_cons hordered]

theorem confined_remove (h : Entries.Ordered c.entries) (filter : Option Filter) :
    guard.Confined c identity (.remove filter) (guard.step c identity (.remove filter)) := by
  rcases guard.step_remove_cases c identity filter with
    ⟨e, hstep⟩ | ⟨permission, hperm, ⟨hfirst, hstep⟩ | ⟨key, document, hfirst, hstep⟩⟩
  · rw [hstep]
    exact guard.confined_of_error identity
  · rw [hstep]
    exact ⟨permission, hperm, Or.inl ⟨Collection.not_reached_of_firstMatch hfirst, rfl, rfl⟩⟩
  · obtain ⟨before, text, after, hat⟩ := Collection.exists_firstAt hfirst
    have hordered := hat.entries_eq ▸ h
    rw [hstep]
    refine ⟨permission, hperm, Or.inr ⟨before, key, text, document, after, hat, rfl, ?_⟩⟩
    rw [hat.entries_eq, Entries.erase_append_cons hordered]

theorem confined_save (document : Value) :
    guard.Confined c identity (.save document) (guard.step c identity (.save document)) := by
  rcases guard.step_save_cases c identity document with
    ⟨e, hstep⟩ | ⟨permission, members, key, c', hperm, -, hfree, hid, hentries, hstep⟩
  · rw [hstep]
    exact guard.confined_of_error identity
  · obtain ⟨before, after, hsplit, hinsert⟩ :=
      Entries.exists_insert_eq hfree (Value.object (c.identified members)).compact
    rw [hstep]
    exact ⟨⟨permission, hperm⟩, before, key, _, after, hsplit, hfree, rfl, hid,
      hentries.trans hinsert⟩

/-- No step gets out of the rows of its caller. -/
theorem confined_step (h : Entries.Ordered c.entries) (operation : Operation) :
    guard.Confined c identity operation (guard.step c identity operation) := by
  cases operation with
  | find filter sort limit => exact guard.confined_find identity filter sort limit
  | findOne filter selection => exact guard.confined_findOne identity filter selection
  | update filter payload => exact guard.confined_update identity h filter payload
  | remove filter => exact guard.confined_remove identity h filter
  | save document => exact guard.confined_save identity document

/-- Whatever has been done before, an operation is confined to the rows of its caller. -/
theorem confined_after_run (h : Entries.Ordered c.entries)
    (operations : List (Option Identity × Operation)) (operation : Operation) :
    guard.Confined (guard.run c operations) identity operation
      (guard.step (guard.run c operations) identity operation) :=
  guard.confined_step identity (guard.ordered_run h operations) operation

/-- Two notes of two owners, of whom the second has removed a note of the first in vain and now
updates whatever note comes first. -/
theorem confined_after_run_of_owners :
    let rows := some (RowScope.template (.attributeEq "owner" "id"))
    let guard := ofRole "Note" "USER" ⟨none, none, some (.scoped ⟨rows, none⟩),
      some (.scoped ⟨rows, none⟩)⟩
    let note (id owner : String) := Value.object [("_id", .string id), ("owner", .string owner)]
    let c := Collection.ofDocuments [note "1" "ann", note "2" "bob"]
    let bob := some ((Identity.ofRoles ["USER"]).withId "bob")
    let before := [(bob, Operation.remove (some (.eq "owner" (.string "ann"))))]
    let update := Operation.update none (.object [("owner", .string "eve")])
    Entries.Ordered c.entries ∧
      guard.Confined (guard.run c before) bob update
        (guard.step (guard.run c before) bob update) := by
  intro rows guard note c bob before update
  have h : Entries.Ordered c.entries := by
    show List.Pairwise _ _
    decide +kernel
  -- nothing has to be evaluated for the rest
  clear_value c guard bob before update
  exact ⟨h, guard.confined_after_run bob h before update⟩

end Guard

end RecordGuard
