import RecordGuard.Collection
import RecordGuard.Entity
import RecordGuard.Permission
import RecordGuard.Redaction.Restore

/-!
# The facade of an entity

The facade carries out reads and writes of an entity under given permissions: it puts together the
filter and the selection of each request and hands it to an adapter, which knows the store. The
permission's filter, the caller's criteria and the search term all have to match.
-/

namespace RecordGuard

open Json (Value Tree Record)

/-- Which records a caller asks for. -/
structure QueryFilter where
  criteria : Option Filter := none
  /-- A term to be found in one of the entity's search fields. -/
  search : Option String := none

/-- Reads the selection of records. -/
def QueryFilter.ofTree? (t : Tree) : Option QueryFilter := do
  let r ← Record.ofTree? ["criteria", "search"] t
  return ⟨← r.optional "criteria" Filter.ofTree?, ← r.optional "search" Tree.string?⟩

/-- A request for a page. -/
structure ListRequest where
  page : Nat := 0
  size : Option Nat := none
  filter : QueryFilter := {}
  sort : List SortKey := []

/-- Reads a request for a page. -/
def ListRequest.ofTree? (t : Tree) : Option ListRequest := do
  let r ← Record.ofTree? ["page", "size", "filter", "sort"] t
  let default : ListRequest := {}
  let page ← r.withDefault "page" default.page (Tree.natBelow? Word.limit32)
  let size ← r.optional "size" (Tree.natBelow? Word.limit32)
  let filter ← r.withDefault "filter" default.filter QueryFilter.ofTree?
  let sort ← r.withDefault "sort" default.sort (Tree.list? SortKey.ofTree?)
  return ⟨page, size, filter, sort⟩

/-- The operations of a store, with its own effects and failures. Filters and selections are
carried out as they are given. -/
structure Adapter (m : Type → Type) (ε : Type) where
  getAll : ListOptions → m (Except ε (List Value))
  count : Option Filter → m (Except ε Nat)
  getOne : RecordOptions → m (Except ε (Option Value))
  addOne : Value → m (Except ε Value)
  updateOne : Option Filter → Value → m (Except ε (Option Value))
  deleteOne : Option Filter → m (Except ε (Option Value))

/-- Why an operation of the facade fails. -/
inductive FacadeError (ε : Type) where
  | guard (e : GuardError)
  | store (e : ε)

/-- An entity's records behind an adapter. -/
structure Facade (m : Type → Type) (ε : Type) where
  adapter : Adapter m ε
  entity : EntitySettings
  /-- The text that reserved keys start with. -/
  reserved : String

namespace EntitySettings

variable (entity : EntitySettings)

/-- The condition that a search term is found, if there are fields to look in. -/
def searchFilter (term : String) : Option Filter :=
  let pattern := String.ofList ('%' :: (Like.escape term.toList ++ ['%']))
  Filter.anyOf (entity.searchFields.map fun field => .field field (.likeIgnoringCase pattern))

/-- The filter that is handed to the store: the permission's and the caller's, in the store's
names. -/
def resultFilter (query : QueryFilter) (permission : Option Filter) : Option Filter :=
  let criteria := Filter.conjoin query.criteria (query.search.bind entity.searchFilter)
  let filter := Filter.conjoin permission criteria
  if entity.renamesId then filter.map (Filter.rename externalIdField entity.idField) else filter

/-- The selection of what is read: the excerpt's, else the permission's. -/
def readSelection (permission : Permission) : Option Selection :=
  match entity.excerptMask with
  | some mask => some (.ofMask mask)
  | none => permission.projection.map .ofMask

end EntitySettings

namespace Facade

variable {m : Type → Type} [Monad m] {ε : Type} (facade : Facade m ε)

/-- The permission for an action; a denial is a refusal. -/
def permit (permissions : PermissionSet) (action : Action) :
    ExceptT (FacadeError ε) m Permission :=
  match permissions.get action with
  | .denied => throw (.guard (.accessDenied facade.entity.name action))
  | permission => pure permission

/-- Hands an operation to the store. -/
def exec {α : Type} (operation : m (Except ε α)) : ExceptT (FacadeError ε) m α :=
  ExceptT.mk (do return (← operation).mapError .store)

/-- A page of records. -/
def getAll (permissions : PermissionSet) (request : ListRequest) :
    ExceptT (FacadeError ε) m (List Value) := do
  let permission ← facade.permit permissions .read
  exec (facade.adapter.getAll {
    page := request.page
    size := request.size.getD facade.entity.pageSize
    projection := facade.entity.readSelection permission
    filter := facade.entity.resultFilter request.filter permission.filter
    sort := request.sort })

/-- The number of records. -/
def count (permissions : PermissionSet) (query : QueryFilter) :
    ExceptT (FacadeError ε) m Nat := do
  let permission ← facade.permit permissions .read
  exec (facade.adapter.count (facade.entity.resultFilter query permission.filter))

/-- The first record. -/
def getOne (permissions : PermissionSet) (query : QueryFilter) :
    ExceptT (FacadeError ε) m (Option Value) := do
  let permission ← facade.permit permissions .read
  exec (facade.adapter.getOne {
    filter := facade.entity.resultFilter query permission.filter
    projection := facade.entity.readSelection permission })

/-- Adds a record without the members that the caller may not create. -/
def addOne (permissions : PermissionSet) (payload : Value) :
    ExceptT (FacadeError ε) m Value := do
  let permission ← facade.permit permissions .create
  let payload :=
    match permission.projection with
    | some mask => (mask.strip facade.reserved payload).1
    | none => payload
  exec (facade.adapter.addOne payload)

/-- Updates the first record. What the caller may not change takes the value of the record that the
caller's own conditions find. -/
def updateOne (permissions : PermissionSet) (query : QueryFilter) (payload : Value) :
    ExceptT (FacadeError ε) m (Option Value) := do
  let permission ← facade.permit permissions .update
  let payload ←
    match permission.projection with
    | some mask => do
      let stored ← exec (facade.adapter.getOne ⟨facade.entity.resultFilter query none, none⟩)
      pure (mask.restore facade.reserved payload stored).1
    | none => pure payload
  exec (facade.adapter.updateOne (facade.entity.resultFilter query permission.filter) payload)

/-- Removes the first record. -/
def deleteOne (permissions : PermissionSet) (query : QueryFilter) :
    ExceptT (FacadeError ε) m (Option Value) := do
  let permission ← facade.permit permissions .delete
  exec (facade.adapter.deleteOne (facade.entity.resultFilter query permission.filter))

end Facade

namespace Collection

/-- Carries out an operation that changes the collection unless it fails. -/
def attempt {α : Type} (operation : Collection → Except CollectionError (α × Collection)) :
    StateM Collection (Except CollectionError α) := fun c =>
  match operation c with
  | .ok (result, c) => (.ok result, c)
  | .error e => (.error e, c)

/-- A page of the documents that match. -/
def page (c : Collection) (options : ListOptions) : Except CollectionError (List Value) :=
  c.find options.filter {
    selection := options.projection
    sort := options.sort
    skip := options.offset
    limit := some options.size }

/-- A collection as the store behind a facade. -/
def adapter : Adapter (StateM Collection) CollectionError where
  getAll options := do return (← get).page options
  count filter := do return (← get).count filter
  getOne options := do return (← get).findOne options.filter options.projection
  addOne payload := attempt fun c => c.insert payload
  updateOne filter payload := attempt fun c => c.updateOne filter payload
  deleteOne filter := attempt fun c => c.deleteOne filter

end Collection

end RecordGuard
