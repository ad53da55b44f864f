import RecordGuard.Facade
import RecordGuard.Proofs.Results
import RecordGuard.Proofs.Steps

/-!
# Two layers of enforcement

The same requests can go to a guarded collection, which resolves the permission of the caller at
each operation and narrows the caller's filter by it, or to a facade over the collection, which is
given the permissions resolved beforehand and narrows them by the caller's filter. Both give the
same answers and leave the same documents, request after request (`answers_match`).

The collections of the two layers have the same documents but may have different sources of
identifiers, for a generated identifier depends on the time (`Collection.Alike`). So a new document
has to bring its identifier along and past the mask of the permission (`Request.KeepsIdentifier`),
and then neither source is drawn from.
-/

namespace RecordGuard

open Json (Value)

/-- What both a guarded collection and a facade can be asked for. -/
inductive Request where
  | page (filter : Option Filter) (sort : List SortKey) (size : Nat)
  /-- The number of documents, which an unlimited search would give in some order. -/
  | count (filter : Option Filter) (sort : List SortKey)
  | one (filter : Option Filter)
  | update (filter : Option Filter) (payload : Value)
  | remove (filter : Option Filter)
  | add (document : Value)

/-- The answer to a request. -/
inductive Answer where
  | documents (found : List Value)
  | number (n : Nat)
  | document (found : Option Value)

/-! ### Requests to a guarded collection -/

namespace Request

/-- The guarded operation behind a request: a page is a search with a limit, and documents are
counted by searching for all of them. -/
def operation : Request → Operation
  | .page filter sort size => .find filter sort (some size)
  | .count filter sort => .find filter sort none
  | .one filter => .findOne filter none
  | .update filter payload => .update filter payload
  | .remove filter => .remove filter
  | .add document => .save document

/-- What a request makes of the reply to its operation. -/
def read : Request → Reply → Answer
  | .count _ _, .documents found => .number found.length
  | _, .documents found => .documents found
  | _, .document found => .document found

end Request

namespace Guard

/-- Answers a request of a caller. -/
def answer (guard : Guard) (c : Collection) (identity : Option Identity) (request : Request) :
    Except OperationError Answer × Collection :=
  let reply := guard.step c identity request.operation
  (reply.1.map request.read, reply.2)

/-- Answers requests one after the other, each of its own caller. -/
def answers (guard : Guard) (c : Collection) :
    List (Option Identity × Request) → List (Except OperationError Answer) × Collection
  | [] => ([], c)
  | (identity, request) :: rest =>
    let first := guard.answer c identity request
    let others := guard.answers first.2 rest
    (first.1 :: others.1, others.2)

end Guard

/-! ### Requests to a facade -/

/-- A facade over a collection. -/
abbrev CollectionFacade := Facade (StateM Collection) CollectionError

namespace CollectionFacade

/-- The facade of an entity over a collection that keeps to the reserved keys of a guard. -/
def ofGuard (guard : Guard) (entity : EntitySettings) : CollectionFacade :=
  ⟨Collection.adapter, entity, guard.reserved⟩

variable (facade : CollectionFacade) (permissions : PermissionSet)

/-- Answers a request under given permissions; a page is the first one of its size. -/
def answer : Request → ExceptT (FacadeError CollectionError) (StateM Collection) Answer
  | .page filter sort size =>
    .documents <$> facade.getAll permissions
      { page := 0, size := some size, filter := { criteria := filter }, sort := sort }
  | .count filter _ => .number <$> facade.count permissions { criteria := filter }
  | .one filter => .document <$> facade.getOne permissions { criteria := filter }
  | .update filter payload =>
    .document <$> facade.updateOne permissions { criteria := filter } payload
  | .remove filter => .document <$> facade.deleteOne permissions { criteria := filter }
  | .add document => (fun added => .document (some added)) <$> facade.addOne permissions document

/-- Answers requests one after the other, each under its own permissions. -/
def answers (c : Collection) : List (PermissionSet × Request) →
    List (Except (FacadeError CollectionError) Answer) × Collection
  | [] => ([], c)
  | (permissions, request) :: rest =>
    let first := (facade.answer permissions request).run.run c
    let others := answers first.2 rest
    (first.1 :: others.1, others.2)

end CollectionFacade

/-! ### When the layers are comparable -/

/-- A failure of a guarded collection and one of the facade that are the same but for what they are
wrapped in. -/
inductive SameFailure : OperationError → FacadeError CollectionError → Prop
  | guard (e : GuardError) : SameFailure (.guard e) (.guard e)
  | collection (e : CollectionError) : SameFailure (.collection e) (.store e)
  /-- The record for an update cannot be read back; a hook hands on the report of this. -/
  | readBack (e : CollectionError) : SameFailure (.guard (.unreadable e.message)) (.store e)

/-- The answers to a request are the same in both layers. -/
inductive Request.SameAnswer : Request → Except OperationError Answer →
    Except (FacadeError CollectionError) Answer → Prop
  | ok (request : Request) (answer : Answer) : SameAnswer request (.ok answer) (.ok answer)
  | error (request : Request) {e : OperationError} {e' : FacadeError CollectionError}
      (h : SameFailure e e') : SameAnswer request (.error e) (.error e')
  /-- The facade counts without sorting, so that only the search fails if the sorter gives up. -/
  | counted (filter : Option Filter) {sort : List SortKey} (h : sort ≠ []) (n : Nat) :
      SameAnswer (.count filter sort) (.error (.collection .unsortable)) (.ok (.number n))

/-- The answers to a list of requests are the same in both layers. -/
inductive SameAnswers : List Request → List (Except OperationError Answer) →
    List (Except (FacadeError CollectionError) Answer) → Prop
  | nil : SameAnswers [] [] []
  | cons {request requests guarded facade guardedRest facadeRest}
      (head : Request.SameAnswer request guarded facade)
      (tail : SameAnswers requests guardedRest facadeRest) :
      SameAnswers (request :: requests) (guarded :: guardedRest) (facade :: facadeRest)

/-- The same documents under the same keys, sorted in the same way, with the given sources of
identifiers. -/
structure Collection.Alike (ids ids' : IdSource) (c d : Collection) : Prop where
  idField_eq : d.idField = c.idField
  entries_eq : d.entries = c.entries
  sorter_eq : d.sorter = c.sorter
  ids_eq : c.ids = ids ∧ d.ids = ids'

/-- An entity that is known by the name the guard has for it, shows records by the permission only
and names their identifier as the store does. -/
structure EntitySettings.Plain (entity : EntitySettings) (guard : Guard) : Prop where
  name_eq : entity.name = guard.resolver.entity
  excerptMask_eq : entity.excerptMask = none
  renamesId_eq : entity.renamesId = false

/-- A new document, if it is one, still has its identifier when the permission's mask has been
applied. -/
def Request.KeepsIdentifier (guard : Guard) (idField : String) (permissions : PermissionSet) :
    Request → Prop
  | .add document => ∀ members,
      guard.creatable permissions.create document = .object members →
        Entries.has members idField = true
  | _ => True

/-- The two layers answer a request the same and leave the same documents. -/
def SameOutcome (ids ids' : IdSource) (request : Request)
    (guarded : Except OperationError Answer × Collection)
    (facade : Except (FacadeError CollectionError) Answer × Collection) : Prop :=
  request.SameAnswer guarded.1 facade.1 ∧ guarded.2.Alike ids ids' facade.2

/-! ### Narrowing from both sides -/

theorem Filter.accepts_conjoin_comm (f g : Option Filter) (document : Value) :
    accepts (conjoin f g) document = accepts (conjoin g f) document := by
  rw [accepts_conjoin, accepts_conjoin, Bool.and_comm]

namespace EntitySettings.Plain

variable {entity : EntitySettings} {guard : Guard} (h : entity.Plain guard)
include h

theorem resultFilter_eq (filter permission : Option Filter) :
    entity.resultFilter { criteria := filter } permission = Filter.conjoin permission filter := by
  rw [resultFilter, h.renamesId_eq, if_neg Bool.false_ne_true]
  exact congrArg (Filter.conjoin permission) (Filter.conjoin_none_right filter)

theorem readSelection_eq (permission : Permission) :
    entity.readSelection permission = permission.projection.map .ofMask := by
  rw [readSelection, h.excerptMask_eq]

end EntitySettings.Plain

/-! ### Operations of a facade over a collection -/

theorem Resolver.resolveAll_eq_ok {resolver : Resolver} {identity : Option Identity}
    {permissions : PermissionSet} (h : resolver.resolveAll identity = .ok permissions)
    (action : Action) : resolver.resolve identity action = .ok (permissions.get action) := by
  simp only [resolveAll, bind_eq_ok_iff] at h
  obtain ⟨create, hcreate, read, hread, update, hupdate, delete, hdelete, h⟩ := h
  cases h
  cases action <;> assumption

namespace CollectionFacade

variable {guard : Guard} {entity : EntitySettings} {identity : Option Identity}
  {permissions : PermissionSet}

/-- A permission that was resolved beforehand lets an operation pass, or refuses it, as the guard
does when it resolves the permission. -/
theorem run_permit_bind (h : entity.Plain guard)
    (hp : guard.resolver.resolveAll identity = .ok permissions) (action : Action) {α : Type}
    (f : Permission → ExceptT (FacadeError CollectionError) (StateM Collection) α)
    (c : Collection) :
    ((ofGuard guard entity).permit permissions action >>= f).run.run c =
      match guard.resolver.require identity action with
      | .ok permission => (f permission).run.run c
      | .error e => (.error (.guard e), c) := by
  rw [Resolver.require, Resolver.resolveAll_eq_ok hp, Facade.permit]
  cases permissions.get action with
  | denied => rw [← h.name_eq]; rfl
  | _ => rfl

theorem run_map {α : Type} (x : ExceptT (FacadeError CollectionError) (StateM Collection) α)
    (f : α → Answer) (c : Collection) :
    (f <$> x).run.run c = ((x.run.run c).1.map f, (x.run.run c).2) := by
  rw [ExceptT.run_map]
  rfl

/-- A facade goes on with the result of an operation of the store, or fails as it does. -/
theorem run_exec_bind {α β : Type} (operation : StateM Collection (Except CollectionError α))
    (f : α → ExceptT (FacadeError CollectionError) (StateM Collection) β) (c : Collection) :
    (Facade.exec operation >>= f).run.run c =
      match operation.run c with
      | (.ok a, c') => (f a).run.run c'
      | (.error e, c') => (.error (.store e), c') := by
  have hrun : (Facade.exec operation >>= f).run.run c =
      ((ExceptT.bindCont f ((operation.run c).1.mapError FacadeError.store)).run
        (operation.run c).2) := rfl
  rw [hrun]
  rcases operation.run c with ⟨_ | _, c'⟩ <;> rfl

/-- What a facade makes of the result of an operation on its collection, which stays what it was
after a failure. -/
def handOn {α β : Type} (c : Collection) (f : α → β) :
    Except CollectionError (α × Collection) → Except (FacadeError CollectionError) β × Collection
  | .ok (result, c) => (.ok (f result), c)
  | .error e => (.error (.store e), c)

theorem run_map_exec_attempt {α : Type}
    (operation : Collection → Except CollectionError (α × Collection)) (f : α → Answer)
    (c : Collection) :
    (f <$> Facade.exec (Collection.attempt operation)).run.run c =
      handOn c f (operation c) := by
  have hrun : (Facade.exec (Collection.attempt operation)).run.run c =
      (((Collection.attempt operation c).1.mapError FacadeError.store),
        (Collection.attempt operation c).2) := rfl
  rw [run_map, hrun, Collection.attempt]
  cases operation c <;> rfl

/-- The first page of a size is a search with a limit. -/
theorem page_zero (c : Collection) (size : Nat) (projection : Option Selection)
    (filter : Option Filter) (sort : List SortKey) :
    c.page ⟨0, size, projection, filter, sort⟩ =
      c.find filter { selection := projection, sort := sort, limit := some size } := by
  rw [Collection.page, ListOptions.offset, Nat.zero_mul]

/-! #### Requests -/

section Requests

variable (h : entity.Plain guard)
  (hp : guard.resolver.resolveAll identity = .ok permissions) (c : Collection)
include h hp

theorem run_page (filter : Option Filter) (sort : List SortKey) (size : Nat) :
    ((ofGuard guard entity).answer permissions (.page filter sort size)).run.run c =
      match guard.resolver.require identity .read with
      | .ok permission =>
        (((c.find (Filter.conjoin permission.filter filter)
          { selection := permission.projection.map .ofMask, sort := sort,
            limit := some size }).mapError FacadeError.store).map .documents, c)
      | .error e => (.error (.guard e), c) := by
  rw [answer, run_map, Facade.getAll, run_permit_bind h hp]
  cases guard.resolver.require identity .read with
  | error e => rfl
  | ok permission =>
    dsimp only [ofGuard]
    rw [h.resultFilter_eq, h.readSelection_eq, ← page_zero]
    rfl

theorem run_count (filter : Option Filter) (sort : List SortKey) :
    ((ofGuard guard entity).answer permissions (.count filter sort)).run.run c =
      match guard.resolver.require identity .read with
      | .ok permission =>
        (((c.count (Filter.conjoin permission.filter filter)).mapError FacadeError.store).map
          .number, c)
      | .error e => (.error (.guard e), c) := by
  rw [answer, run_map, Facade.count, run_permit_bind h hp]
  cases guard.resolver.require identity .read with
  | error e => rfl
  | ok permission =>
    dsimp only [ofGuard]
    rw [h.resultFilter_eq]
    rfl

theorem run_one (filter : Option Filter) :
    ((ofGuard guard entity).answer permissions (.one filter)).run.run c =
      match guard.resolver.require identity .read with
      | .ok permission =>
        (((c.findOne (Filter.conjoin permission.filter filter)
          (permission.projection.map .ofMask)).mapError FacadeError.store).map .document, c)
      | .error e => (.error (.guard e), c) := by
  rw [answer, run_map, Facade.getOne, run_permit_bind h hp]
  cases guard.resolver.require identity .read with
  | error e => rfl
  | ok permission =>
    dsimp only [ofGuard]
    rw [h.resultFilter_eq, h.readSelection_eq]
    rfl

theorem run_update (filter : Option Filter) (payload : Value) :
    ((ofGuard guard entity).answer permissions (.update filter payload)).run.run c =
      match guard.resolver.require identity .update with
      | .ok permission =>
        match c.recordFor permission filter with
        | .ok stored =>
          handOn c Answer.document (c.updateOne (Filter.conjoin permission.filter filter)
            (guard.writable permission stored payload))
        | .error e => (.error (.store e), c)
      | .error e => (.error (.guard e), c) := by
  rw [answer, run_map, Facade.updateOne, run_permit_bind h hp]
  cases guard.resolver.require identity .update with
  | error e => rfl
  | ok permission =>
    dsimp only [ofGuard, Collection.recordFor, Guard.writable]
    simp only [h.resultFilter_eq]
    cases permission.projection with
    | none =>
      exact (run_map _ _ c).symm.trans (run_map_exec_attempt (fun c => c.updateOne
        (Filter.conjoin permission.filter filter) payload) Answer.document c)
    | some mask =>
      have hread : (Collection.adapter.getOne ⟨Filter.conjoin none filter, none⟩).run c =
          (c.findOne filter none, c) := rfl
      simp only [pure_bind]
      rw [run_exec_bind, hread]
      cases c.findOne filter none with
      | error e => rfl
      | ok stored =>
        exact (run_map _ _ c).symm.trans (run_map_exec_attempt (fun c => c.updateOne
          (Filter.conjoin permission.filter filter) (mask.restore guard.reserved payload stored).1)
          Answer.document c)

theorem run_remove (filter : Option Filter) :
    ((ofGuard guard entity).answer permissions (.remove filter)).run.run c =
      match guard.resolver.require identity .delete with
      | .ok permission =>
        handOn c Answer.document (c.deleteOne (Filter.conjoin permission.filter filter))
      | .error e => (.error (.guard e), c) := by
  rw [answer, run_map, Facade.deleteOne, run_permit_bind h hp]
  cases guard.resolver.require identity .delete with
  | error e => rfl
  | ok permission =>
    dsimp only [ofGuard]
    rw [h.resultFilter_eq, ← run_map_exec_attempt (fun c => c.deleteOne
      (Filter.conjoin permission.filter filter)), run_map]
    rfl

theorem run_add (document : Value) :
    ((ofGuard guard entity).answer permissions (.add document)).run.run c =
      match guard.resolver.require identity .create with
      | .ok permission =>
        handOn c (fun added => .document (some added))
          (c.insert (guard.creatable permission document))
      | .error e => (.error (.guard e), c) := by
  rw [answer, run_map, Facade.addOne, run_permit_bind h hp]
  cases guard.resolver.require identity .create with
  | error e => rfl
  | ok permission =>
    dsimp only [ofGuard]
    rw [← run_map_exec_attempt (fun c => c.insert (guard.creatable permission document)), run_map,
      Guard.creatable]
    cases permission.projection <;> rfl

end Requests

end CollectionFacade

/-! ### Alike collections -/

namespace Collection

/-- Without a limit a search gives every document that is counted, unless the sorter gives up. -/
theorem find_count_cases (c : Collection) (filter : Option Filter) (selection : Option Selection)
    (sort : List SortKey) :
    (∃ found, c.find filter { selection := selection, sort := sort } = .ok found ∧
        c.count filter = .ok found.length) ∨
      (c.find filter { selection := selection, sort := sort } = .error .unsortable ∧ sort ≠ [] ∧
        ∃ n, c.count filter = .ok n) ∨
      ∃ e, c.find filter { selection := selection, sort := sort } = .error e ∧
        c.count filter = .error e := by
  rw [find, count]
  cases c.matching filter with
  | error e => exact Or.inr (Or.inr ⟨e, rfl, rfl⟩)
  | ok matched =>
    dsimp only [bind, Except.bind]
    cases hsort : SortKey.sort c.sorter sort (matched.map Prod.snd) with
    | none =>
      refine Or.inr (Or.inl ⟨rfl, ?_, _, rfl⟩)
      rintro rfl
      cases hsort
    | some sorted =>
      refine Or.inl ⟨_, rfl, ?_⟩
      have hlength := (SortKey.perm_sort hsort).length_eq
      rw [List.length_map] at hlength
      rw [List.length_map, upTo, List.drop_zero, hlength]
      rfl

/-- The same result, with collections that are alike. -/
def SameResult (ids ids' : IdSource) {α : Type} :
    Except CollectionError (α × Collection) → Except CollectionError (α × Collection) → Prop
  | .ok (a, c), .ok (b, d) => b = a ∧ c.Alike ids ids' d
  | .error e, .error e' => e' = e
  | _, _ => False

namespace Alike

variable {ids ids' : IdSource} {c d : Collection}

theorem refl (c : Collection) : c.Alike c.ids c.ids c := ⟨rfl, rfl, rfl, rfl, rfl⟩

/-- With one source of identifiers, collections that are alike are the same. -/
theorem eq (h : c.Alike ids ids d) : d = c := by
  obtain ⟨hidField, hentries, hsorter, hc, hd⟩ := h
  cases c
  cases d
  cases hidField
  cases hentries
  cases hsorter
  cases hc
  cases hd
  rfl

variable (h : c.Alike ids ids' d)
include h

theorem give_eq : d.give = c.give := by
  funext selection document
  unfold give
  rw [h.idField_eq]

/-- A document that has its identifier is added alike. -/
theorem insert {document : Value}
    (hid : ∀ members, document = .object members → Entries.has members c.idField = true) :
    SameResult ids ids' (c.insert document) (d.insert document) := by
  cases document with
  | object members =>
    obtain ⟨id, hget⟩ := Entries.has_eq_true_iff.1 (hid members rfl)
    rw [Collection.insert, Collection.insert, h.idField_eq, h.entries_eq]
    simp only [hget]
    cases keyOf id with
    | error e => rfl
    | ok key =>
      dsimp only
      by_cases hhas : Entries.has c.entries key = true
      · rw [if_pos hhas, if_pos hhas]
        rfl
      · rw [if_neg hhas, if_neg hhas]
        exact ⟨rfl, rfl, rfl, h.sorter_eq, h.ids_eq⟩
  | _ => rfl

variable {f g : Option Filter}
  (hfg : ∀ document, Filter.accepts g document = Filter.accepts f document)
include hfg

theorem matching_eq : d.matching g = c.matching f := by
  rw [matching_congr hfg, matching, matching, h.entries_eq]

theorem firstMatch_eq : d.firstMatch g = c.firstMatch f := by
  rw [firstMatch_congr hfg, firstMatch, firstMatch, h.entries_eq]

theorem find_eq (options : FindOptions) : d.find g options = c.find f options := by
  rw [find, find, h.matching_eq hfg, h.give_eq, h.sorter_eq]

theorem count_eq : d.count g = c.count f := by
  rw [count, count, h.matching_eq hfg]

theorem findOne_eq (selection : Option Selection) :
    d.findOne g selection = c.findOne f selection := by
  rw [findOne, findOne, h.firstMatch_eq hfg, h.give_eq]

omit hfg in
theorem recordFor_eq (permission : Permission) (filter : Option Filter) :
    d.recordFor permission filter = c.recordFor permission filter := by
  rw [recordFor, recordFor, h.findOne_eq fun _ => rfl]

theorem updateOne (payload : Value) :
    SameResult ids ids' (c.updateOne f payload) (d.updateOne g payload) := by
  cases payload with
  | object members =>
    rw [Collection.updateOne, Collection.updateOne, h.firstMatch_eq hfg, h.idField_eq]
    rcases c.firstMatch f with e | _ | entry
    · rfl
    · exact ⟨rfl, h⟩
    · exact ⟨rfl, rfl, by rw [h.entries_eq], h.sorter_eq, h.ids_eq⟩
  | _ => rfl

theorem deleteOne : SameResult ids ids' (c.deleteOne f) (d.deleteOne g) := by
  rw [Collection.deleteOne, Collection.deleteOne, h.firstMatch_eq hfg]
  rcases c.firstMatch f with e | _ | entry
  · rfl
  · exact ⟨rfl, h⟩
  · exact ⟨rfl, h.idField_eq, by rw [h.entries_eq], h.sorter_eq, h.ids_eq⟩

end Alike

end Collection

/-! ### The layers agree -/

/-- Results that are the same are the same outcome in both layers. -/
theorem SameOutcome.of_sameResult {α : Type} {ids ids' : IdSource} {c d : Collection}
    (hcd : c.Alike ids ids' d) {x y : Except CollectionError (α × Collection)}
    (hxy : Collection.SameResult ids ids' x y) (request : Request) (reply : α → Reply) :
    SameOutcome ids ids' request
      ((Guard.settle c ((x.mapError OperationError.collection).map fun r =>
          (reply r.1, r.2))).1.map request.read,
        (Guard.settle c ((x.mapError OperationError.collection).map fun r =>
          (reply r.1, r.2))).2)
      (CollectionFacade.handOn d (fun a => request.read (reply a)) y) := by
  cases x with
  | error e =>
    cases y with
    | error e' =>
      cases hxy
      exact ⟨.error _ (.collection _), hcd⟩
    | ok r => exact hxy.elim
  | ok r =>
    cases y with
    | error e => exact hxy.elim
    | ok r' =>
      obtain ⟨a, c'⟩ := r
      obtain ⟨b, d'⟩ := r'
      obtain ⟨rfl, halike⟩ := hxy
      exact ⟨.ok _ _, halike⟩

/-- A search has the same outcome in both layers. -/
theorem SameOutcome.of_search {α : Type} {ids ids' : IdSource} {c d : Collection}
    (hcd : c.Alike ids ids' d) (request : Request) (reply : α → Reply)
    (x : Except CollectionError α) :
    SameOutcome ids ids' request
      (((x.map reply).mapError OperationError.collection).map request.read, c)
      ((x.mapError FacadeError.store).map fun a => request.read (reply a), d) := by
  cases x with
  | error e => exact ⟨.error _ (.collection e), hcd⟩
  | ok a => exact ⟨.ok _ _, hcd⟩

section Layers

variable {guard : Guard} {entity : EntitySettings} {identity : Option Identity}
  {permissions : PermissionSet} {ids ids' : IdSource} {c d : Collection}

/-- A request of a caller for whom all permissions can be resolved has the same outcome in both
layers. -/
theorem answer_match (h : entity.Plain guard)
    (hp : guard.resolver.resolveAll identity = .ok permissions) (hcd : c.Alike ids ids' d)
    {request : Request} (hk : request.KeepsIdentifier guard c.idField permissions) :
    SameOutcome ids ids' request (guard.answer c identity request)
      (((CollectionFacade.ofGuard guard entity).answer permissions request).run.run d) := by
  -- A hook puts the permission's filter behind the caller's, the facade puts it in front.
  have hcomm (permission : Permission) (filter : Option Filter) :=
    Filter.accepts_conjoin_comm permission.filter filter
  have hrefused (e : GuardError) (request : Request) :
      SameOutcome ids ids' request (.error (.guard e), c) (.error (.guard e), d) :=
    ⟨.error _ (.guard e), hcd⟩
  rw [Guard.answer]
  cases request with
  | page filter sort size =>
    rw [Request.operation, Guard.step_find, CollectionFacade.run_page h hp]
    cases guard.resolver.require identity .read with
    | error e => exact hrefused e _
    | ok permission =>
      dsimp only
      rw [hcd.find_eq (hcomm permission filter), Hooks.filter_narrowed, Hooks.selection_narrowed]
      exact SameOutcome.of_search hcd (.page filter sort size) Reply.documents _
  | count filter sort =>
    rw [Request.operation, Guard.step_find, CollectionFacade.run_count h hp]
    cases guard.resolver.require identity .read with
    | error e => exact hrefused e _
    | ok permission =>
      dsimp only
      rw [hcd.count_eq (hcomm permission filter), Hooks.filter_narrowed]
      rcases c.find_count_cases (Filter.conjoin filter permission.filter)
          (Hooks.narrowed permission ⟨filter, none⟩).selection sort with
        ⟨found, hfind, hcount⟩ | ⟨hfind, hsort, n, hcount⟩ | ⟨e, hfind, hcount⟩
      · rw [hfind, hcount]
        exact ⟨.ok _ _, hcd⟩
      · rw [hfind, hcount]
        exact ⟨.counted filter hsort n, hcd⟩
      · rw [hfind, hcount]
        exact ⟨.error _ (.collection e), hcd⟩
  | one filter =>
    rw [Request.operation, Guard.step_findOne, CollectionFacade.run_one h hp]
    cases guard.resolver.require identity .read with
    | error e => exact hrefused e _
    | ok permission =>
      dsimp only
      rw [hcd.findOne_eq (hcomm permission filter), Hooks.filter_narrowed,
        Hooks.selection_narrowed]
      exact SameOutcome.of_search hcd (.one filter) Reply.document _
  | update filter payload =>
    rw [Request.operation, Guard.step, Guard.update_eq, CollectionFacade.run_update h hp]
    cases guard.resolver.require identity .update with
    | error e => exact hrefused e _
    | ok permission =>
      dsimp only
      -- Both layers restore from the record that the caller's filter finds by itself.
      rw [hcd.recordFor_eq]
      cases c.recordFor permission filter with
      | error e => exact ⟨.error _ (.readBack e), hcd⟩
      | ok stored =>
        exact SameOutcome.of_sameResult hcd (hcd.updateOne (hcomm permission filter) _)
          (.update filter payload) Reply.document
  | remove filter =>
    rw [Request.operation, Guard.step, Guard.remove_eq, CollectionFacade.run_remove h hp]
    cases guard.resolver.require identity .delete with
    | error e => exact hrefused e _
    | ok permission =>
      exact SameOutcome.of_sameResult hcd (hcd.deleteOne (hcomm permission filter))
        (.remove filter) Reply.document
  | add document =>
    rw [Request.operation, Guard.step, Guard.save_eq, CollectionFacade.run_add h hp]
    cases hperm : guard.resolver.require identity .create with
    | error e => exact hrefused e _
    | ok permission =>
      have hcreate : permissions.create = permission := by
        have hresolve := (Resolver.require_eq_ok_iff.1 hperm).1
        rw [Resolver.resolveAll_eq_ok hp] at hresolve
        exact Except.ok.inj hresolve
      rw [Request.KeepsIdentifier, hcreate] at hk
      exact SameOutcome.of_sameResult hcd (hcd.insert hk) (.add document)
        fun added => .document (some added)

/-- Whatever is asked one after the other, the two layers give the same answers and leave the same
documents. -/
theorem answers_match (h : entity.Plain guard) (hcd : c.Alike ids ids' d)
    (calls : List (Option Identity × PermissionSet × Request))
    (hcalls : ∀ call ∈ calls, guard.resolver.resolveAll call.1 = .ok call.2.1 ∧
      call.2.2.KeepsIdentifier guard c.idField call.2.1) :
    let guarded := guard.answers c (calls.map fun call => (call.1, call.2.2))
    let facade := (CollectionFacade.ofGuard guard entity).answers d
      (calls.map fun call => call.2)
    SameAnswers (calls.map fun call => call.2.2) guarded.1 facade.1 ∧
      guarded.2.Alike ids ids' facade.2 := by
  induction calls generalizing c d with
  | nil => exact ⟨.nil, hcd⟩
  | cons call calls ih =>
    obtain ⟨hp, hk⟩ := hcalls call List.mem_cons_self
    obtain ⟨hanswer, halike⟩ := answer_match h hp hcd hk
    have hid : (guard.answer c call.1 call.2.2).2.idField = c.idField :=
      guard.idField_step c call.1 call.2.2.operation
    obtain ⟨hanswers, hfinal⟩ := ih halike fun other ho =>
      hid.symm ▸ hcalls other (List.mem_cons_of_mem _ ho)
    exact ⟨.cons hanswer hanswers, hfinal⟩

/-- The owner of a note changes it without giving it away, adds another one and lists the notes
read, and is refused to remove one; somebody without a role may do nothing at all. -/
theorem answers_match_of_notes :
    let rows := some (RowScope.template (.attributeEq "owner" "id"))
    let guard := Guard.ofRole "Note" "USER" ⟨some (.scoped ⟨none, some (.compact "-pinned")⟩),
      some (.scoped ⟨rows, some (.compact "text")⟩),
      some (.scoped ⟨rows, some (.compact "-owner")⟩), none⟩
    let entity : EntitySettings := { name := "Note" }
    let note (id owner : String) := Value.object [("_id", .string id), ("owner", .string owner)]
    let c := Collection.ofDocuments [note "1" "ann", note "2" "bob"]
    let bob := some ((Identity.ofRoles ["USER"]).withId "bob")
    let own := Filter.eq "owner" (.string "bob")
    let permissions : PermissionSet :=
      ⟨.scoped ⟨[], some ⟨[("pinned", false)]⟩⟩, .scoped ⟨[own], some ⟨[("text", true)]⟩⟩,
        .scoped ⟨[own], some ⟨[("owner", false)]⟩⟩, .denied⟩
    let calls := [
      (bob, permissions, Request.update none (.object [("owner", .string "eve")])),
      (bob, permissions, .add (note "3" "bob")),
      (bob, permissions, .page none [] 10),
      (bob, permissions, .remove none),
      (some (.ofRoles []), ⟨.denied, .denied, .denied, .denied⟩, .count none [])]
    entity.Plain guard ∧
      (∀ call ∈ calls, guard.resolver.resolveAll call.1 = .ok call.2.1 ∧
        call.2.2.KeepsIdentifier guard c.idField call.2.1) ∧
      let guarded := guard.answers c (calls.map fun call => (call.1, call.2.2))
      let facade := (CollectionFacade.ofGuard guard entity).answers c
        (calls.map fun call => call.2)
      SameAnswers (calls.map fun call => call.2.2) guarded.1 facade.1 ∧
        facade.2 = guarded.2 := by
  intro rows guard entity note c bob own permissions calls
  have hplain : entity.Plain guard := ⟨rfl, rfl, rfl⟩
  have hcalls : ∀ call ∈ calls, guard.resolver.resolveAll call.1 = .ok call.2.1 ∧
      call.2.2.KeepsIdentifier guard c.idField call.2.1 := by
    simp only [calls, List.forall_mem_cons]
    refine ⟨⟨rfl, trivial⟩, ⟨rfl, ?_⟩, ⟨rfl, trivial⟩, ⟨rfl, trivial⟩, ⟨rfl, trivial⟩, ?_⟩
    · rintro members ⟨⟩
      decide +kernel
    · exact List.forall_mem_nil _
  obtain ⟨hanswers, halike⟩ := answers_match hplain (.refl c) calls hcalls
  exact ⟨hplain, hcalls, hanswers, halike.eq⟩

end Layers

end RecordGuard
