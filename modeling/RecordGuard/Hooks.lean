import RecordGuard.Permission
import RecordGuard.Query
import RecordGuard.Redaction.Restore

/-!
# Hooks of a store

A store calls the hook of an operation before it carries the operation out. Hooks for searching and
removing narrow the query to the caller's permission; the hook for saving strips the new document;
the hook for updating narrows the query and restores protected values in the payload, for which it
reads back the stored record.

A hook works on the pending operation in place. When it fails, what it has done to the operation
so far stays visible in its state.
-/

namespace RecordGuard

open Json (Value)

/-- The permissions of an entity's callers, and how to read a record back. -/
structure Hooks (m : Type → Type) where
  resolver : Resolver
  /-- The text that reserved keys start with. -/
  reserved : String
  /-- The first stored record that matches. -/
  reader : Option Filter → m (Except GuardError (Option Value))

/-- A computation over a pending operation that may be refused. -/
abbrev HookM (m : Type → Type) (σ : Type) := ExceptT GuardError (StateT σ m)

namespace Hooks

variable {m : Type → Type} [Monad m] {σ : Type} (hooks : Hooks m) (identity : Option Identity)

/-- The caller's permission for an action. -/
def permit (action : Action) : HookM m σ Permission :=
  ExceptT.mk (pure (hooks.resolver.require identity action))

/-- The stored record. -/
def readBack (filter : Option Filter) : HookM m σ (Option Value) :=
  ExceptT.mk (StateT.lift (hooks.reader filter))

/-- The query narrowed to a permission. -/
def narrowed (permission : Permission) (query : Query) : Query :=
  let query := query.restrict permission.filters
  match permission.projection with
  | some mask => query.select (Selection.ofMask mask)
  | none => query

/-- Narrows a query to the permission for an action. -/
def scopeQuery (action : Action) : HookM m Query Unit := do
  let permission ← hooks.permit identity action
  modify (narrowed permission)

/-- Before a search. -/
def beforeFind : HookM m Query Unit := hooks.scopeQuery identity .read

/-- Before a removal. -/
def beforeDelete : HookM m Query Unit := hooks.scopeQuery identity .delete

/-- Before a new document is saved. -/
def beforeSave : HookM m Value Unit := do
  let permission ← hooks.permit identity .create
  match permission.projection with
  | some mask => modify fun document => (mask.strip hooks.reserved document).1
  | none => pure ()

/-- Before an update. The stored record is read back by the caller's own conditions. -/
def beforeUpdate : HookM m UpdateQuery Unit := do
  let permission ← hooks.permit identity .update
  let callerFilter := (← get).filter
  match permission.filter with
  | some f => modify fun query => { query with filter := Filter.conjoin query.filter (some f) }
  | none => pure ()
  match permission.projection with
  | some mask =>
    let stored ← hooks.readBack callerFilter
    modify fun query =>
      { query with update := (mask.restore hooks.reserved query.update stored).1 }
  | none => pure ()

end Hooks

end RecordGuard
