import RecordGuard.Collection
import RecordGuard.Hooks

/-!
# Guarded collections

A guarded collection runs the hook of every operation before the operation itself. `step` carries
out one operation of a caller and `run` a list of them; an operation that fails leaves the
collection as it was.
-/

namespace RecordGuard

open Json (Value)

/-- Why an operation on a guarded collection fails. -/
inductive OperationError where
  | guard (e : GuardError)
  | collection (e : CollectionError)

/-- Who may do what with the documents of an entity. -/
structure Guard where
  resolver : Resolver
  /-- The text that reserved keys start with. -/
  reserved : String

namespace Guard

/-- The guard of an entity under the given settings. -/
def ofSettings (entity : String) (policy : Option Policy) (settings : GuardSettings) : Guard :=
  ⟨⟨entity, policy, settings.roles⟩, settings.reserved⟩

variable (guard : Guard) (c : Collection) (identity : Option Identity)

/-- The hooks that guard a collection. -/
def hooks : Hooks Id where
  resolver := guard.resolver
  reserved := guard.reserved
  reader filter := (c.findOne filter none).mapError fun e => .unreadable e.message

/-- The pending operation after its hook. -/
def after {σ : Type} (hook : HookM Id σ Unit) (pending : σ) : Except OperationError σ :=
  match hook.run.run pending with
  | (.ok (), pending) => .ok pending
  | (.error e, _) => .error (.guard e)

/-- The documents that the caller may read. -/
def find (filter : Option Filter) (sort : List SortKey) (limit : Option Nat) :
    Except OperationError (List Value) := do
  let query ← after ((guard.hooks c).beforeFind identity) ⟨filter, none⟩
  (c.find query.filter
    { selection := query.selection, sort := sort, limit := limit }).mapError .collection

/-- The first document that the caller may read. -/
def findOne (filter : Option Filter) (selection : Option Selection) :
    Except OperationError (Option Value) := do
  let query ← after ((guard.hooks c).beforeFind identity) ⟨filter, selection⟩
  (c.findOne query.filter query.selection).mapError .collection

/-- Updates the first document that the caller may update. -/
def update (filter : Option Filter) (payload : Value) :
    Except OperationError (Option Value × Collection) := do
  let query ← after ((guard.hooks c).beforeUpdate identity) ⟨filter, payload⟩
  (c.updateOne query.filter query.update).mapError .collection

/-- Removes the first document that the caller may delete. -/
def remove (filter : Option Filter) : Except OperationError (Option Value × Collection) := do
  let query ← after ((guard.hooks c).beforeDelete identity) ⟨filter, none⟩
  (c.deleteOne query.filter).mapError .collection

/-- Adds a document without the members that the caller may not create. -/
def save (document : Value) : Except OperationError (Value × Collection) := do
  let document ← after ((guard.hooks c).beforeSave identity) document
  (c.insert document).mapError .collection

end Guard

/-- What a caller asks of a guarded collection. -/
inductive Operation where
  | find (filter : Option Filter) (sort : List SortKey) (limit : Option Nat)
  | findOne (filter : Option Filter) (selection : Option Selection)
  | update (filter : Option Filter) (payload : Value)
  | remove (filter : Option Filter)
  | save (document : Value)

/-- The answer to an operation. -/
inductive Reply where
  | documents (found : List Value)
  | document (found : Option Value)

namespace Guard

/-- Keeps the collection when an operation fails. -/
def settle (c : Collection) :
    Except OperationError (Reply × Collection) → Except OperationError Reply × Collection
  | .ok (reply, c) => (.ok reply, c)
  | .error e => (.error e, c)

/-- Carries out an operation of a caller. -/
def step (guard : Guard) (c : Collection) (identity : Option Identity) :
    Operation → Except OperationError Reply × Collection
  | .find filter sort limit =>
    settle c ((guard.find c identity filter sort limit).map fun found => (.documents found, c))
  | .findOne filter selection =>
    settle c ((guard.findOne c identity filter selection).map fun found => (.document found, c))
  | .update filter payload =>
    settle c ((guard.update c identity filter payload).map fun r => (.document r.1, r.2))
  | .remove filter =>
    settle c ((guard.remove c identity filter).map fun r => (.document r.1, r.2))
  | .save document =>
    settle c ((guard.save c identity document).map fun r => (.document (some r.1), r.2))

/-- The collection after a list of operations, each of its own caller. -/
def run (guard : Guard) (c : Collection) (operations : List (Option Identity × Operation)) :
    Collection :=
  operations.foldl (fun c operation => (guard.step c operation.1 operation.2).2) c

end Guard

end RecordGuard
