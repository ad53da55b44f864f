import RecordGuard.Collection

/-!
# Stores

A store holds collections by their names, which share one source of identifiers and one sorter. In
JSON it is an object from the names to objects from the keys to the texts of the documents, so that
a document that is not touched keeps its text however often the store is written and read.
-/

namespace RecordGuard

open Json (Value)

/-- Collections by their names, with one source of identifiers. -/
structure Store where
  idField : String
  ids : IdSource
  sorter : Sorter Value
  collections : Entries (Entries String)

namespace Store

/-- A store without collections. -/
def empty (idField : String) (ids : IdSource) (sorter : Sorter Value) : Store :=
  ⟨idField, ids, sorter, []⟩

/-- The collection of a name. -/
def collection (store : Store) (name : String) : Collection :=
  ⟨store.idField, (Entries.get? store.collections name).getD [], store.ids, store.sorter⟩

/-- The store with a collection put in under a name. -/
def put (store : Store) (name : String) (c : Collection) : Store :=
  { store with collections := Entries.insert store.collections name c.entries, ids := c.ids }

/-- The store in which the collection of a name exists. -/
def openCollection (store : Store) (name : String) : Store :=
  store.put name (store.collection name)

/-- The names of the collections. -/
def names (store : Store) : List String := Entries.keys store.collections

/-- A store in JSON. -/
def toValue (store : Store) : Value :=
  .object (store.collections.map fun c => (c.1, .object (c.2.map fun d => (d.1, .string d.2))))

/-- The text of a document, given as a JSON string. -/
def text? : Value → Option String
  | .string text => some text
  | _ => none

/-- Reads the documents of a collection. -/
def documents? (v : Value) : Option (Entries String) := do
  (← v.members?).mapM fun member => return (member.1, ← text? member.2)

/-- Reads a store. -/
def ofValue? (idField : String) (ids : IdSource) (sorter : Sorter Value) (v : Value) :
    Option Store := do
  let collections ← (← v.members?).mapM fun member => return (member.1, ← documents? member.2)
  return ⟨idField, ids, sorter, collections⟩

end Store

end RecordGuard
