import RecordGuard.Filter.Codec
import RecordGuard.Order
import RecordGuard.Selection

/-!
# Queries

What is asked of a store: a pending query or update that hooks may still narrow, a page of a list,
and a single record; with their forms in JSON.
-/

namespace RecordGuard

open Json (Value Tree Record)

namespace Selection

/-- A selection in JSON. -/
def toValue : Selection → Value
  | .showing paths => .object [("include", .array (paths.map Value.string))]
  | .hiding paths => .object [("exclude", .array (paths.map Value.string))]

/-- Reads a selection. -/
def ofTree? (t : Tree) : Option Selection := do
  let (name, body) ← t.tagged?
  let paths ← body.list? Tree.string?
  match name with
  | "include" => some (.showing paths)
  | "exclude" => some (.hiding paths)
  | _ => none

end Selection

namespace Direction

def name : Direction → String
  | .ascending => "asc"
  | .descending => "desc"

def ofName? : String → Option Direction
  | "asc" => some .ascending
  | "desc" => some .descending
  | _ => none

end Direction

namespace SortKey

/-- A sort key in JSON. -/
def toValue (key : SortKey) : Value :=
  .object [("direction", .string key.direction.name), ("field", .string key.field)]

/-- Reads a sort key. -/
def ofTree? (t : Tree) : Option SortKey := do
  let r ← Record.ofTree? ["field", "direction"] t
  let field ← r.required "field" Tree.string?
  let direction ← r.required "direction" fun t => t.name?.bind Direction.ofName?
  return ⟨field, direction⟩

end SortKey

/-- Something in JSON, and null where there is nothing. -/
def valueOrNull {α : Type} (toValue : α → Value) : Option α → Value
  | some a => toValue a
  | none => .null

/-- A pending search or removal. -/
structure Query where
  filter : Option Filter
  selection : Option Selection

namespace Query

/-- Requires at least one of the alternatives on top of the filter, if there are any. -/
def restrict (q : Query) (alternatives : List Filter) : Query :=
  match Filter.anyOf alternatives with
  | some f => { q with filter := Filter.conjoin q.filter (some f) }
  | none => q

/-- Narrows the selection. -/
def select (q : Query) (selection : Selection) : Query :=
  { q with
    selection := some (match q.selection with
      | some current => current.narrow selection
      | none => selection) }

end Query

/-- A pending update: which record, and the members to set in it. -/
structure UpdateQuery where
  filter : Option Filter
  update : Value

/-- A page of a list. -/
structure ListOptions where
  page : Nat
  size : Nat
  projection : Option Selection
  filter : Option Filter
  sort : List SortKey

namespace ListOptions

/-- How many records come before the page. -/
def offset (o : ListOptions) : Nat := o.page * o.size

/-- A page in JSON. -/
def toValue (o : ListOptions) : Value :=
  .object [
    ("filter", valueOrNull Filter.toValue o.filter),
    ("page", .integer o.page),
    ("projection", valueOrNull Selection.toValue o.projection),
    ("size", .integer o.size),
    ("sort", .array (o.sort.map SortKey.toValue))]

/-- Reads a page. -/
def ofTree? (t : Tree) : Option ListOptions := do
  let r ← Record.ofTree? ["page", "size", "projection", "filter", "sort"] t
  let page ← r.required "page" (Tree.natBelow? Word.limit32)
  let size ← r.required "size" (Tree.natBelow? Word.limit32)
  let projection ← r.nullable "projection" Selection.ofTree?
  let filter ← r.nullable "filter" Filter.ofTree?
  let sort ← r.required "sort" (Tree.list? SortKey.ofTree?)
  return ⟨page, size, projection, filter, sort⟩

end ListOptions

/-- A single record. -/
structure RecordOptions where
  filter : Option Filter
  projection : Option Selection

/-- A record's options in JSON. -/
def RecordOptions.toValue (o : RecordOptions) : Value :=
  .object [
    ("filter", valueOrNull Filter.toValue o.filter),
    ("projection", valueOrNull Selection.toValue o.projection)]

end RecordGuard
