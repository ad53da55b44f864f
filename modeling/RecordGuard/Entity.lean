import RecordGuard.Identifier
import RecordGuard.Include.Cascade
import RecordGuard.Mask.Codec
import RecordGuard.Query

/-!
# Settings of an entity

How the records of one entity are listed, searched, identified and written.
-/

namespace RecordGuard

open Json (Value Tree Record)

/-- The name under which a record's identifier is known outside. -/
def externalIdField : String := "id"

/-- Settings of one entity. -/
structure EntitySettings where
  name : String := ""
  /-- The projection of lists and single records; it takes the place of the permission's. -/
  excerpt : Option Projection := none
  /-- The fields in which search terms are looked for. -/
  searchFields : List String := []
  /-- Whether filters may name the identifier by its external name. -/
  renamesId : Bool := false
  idField : String := defaultIdField
  /-- The associations that are written along. -/
  cascade : List CascadeField := []
  /-- The size of a page when the request names none. -/
  pageSize : Nat := 20

namespace EntitySettings

/-- The settings with the given page size, which is at least 1. -/
def withPageSize (settings : EntitySettings) (size : Nat) : EntitySettings :=
  { settings with pageSize := max size 1 }

/-- The cascade in the form for the store. -/
def cascadeIncludes (settings : EntitySettings) : List CascadeInclude :=
  CascadeField.toIncludes settings.cascade

/-- The mask of the excerpt; a mask without entries counts as none. -/
def excerptMask (settings : EntitySettings) : Option Mask :=
  (settings.excerpt.map Projection.decode).filter fun mask => !mask.isEmpty

/-- Settings in JSON. -/
def toValue (settings : EntitySettings) : Value :=
  .object [
    ("cascade_fields", .array (CascadeField.toValues settings.cascade)),
    ("default_page_size", .integer settings.pageSize),
    ("excerpt_projection", valueOrNull Projection.toValue settings.excerpt),
    ("internal_id_field", .string settings.idField),
    ("name", .string settings.name),
    ("search_fields", .array (settings.searchFields.map Value.string)),
    ("underscored_id", .bool settings.renamesId)]

/-- The fields in the order of their declaration. -/
def fieldNames : List String :=
  ["name", "excerpt_projection", "search_fields", "underscored_id", "internal_id_field",
    "cascade_fields", "default_page_size"]

/-- Reads settings. -/
def ofTree? (t : Tree) : Option EntitySettings := do
  let r ← Record.ofTree? fieldNames t
  let default : EntitySettings := {}
  let name ← r.withDefault "name" default.name Tree.string?
  let excerpt ← r.optional "excerpt_projection" fun t =>
    if t.isReadable then Projection.ofTree? t else none
  let searchFields ← r.withDefault "search_fields" default.searchFields (Tree.list? Tree.string?)
  let renamesId ← r.withDefault "underscored_id" default.renamesId Tree.bool?
  let idField ← r.withDefault "internal_id_field" default.idField Tree.string?
  let cascade ← r.withDefault "cascade_fields" default.cascade CascadeField.listOfTree?
  let pageSize ← r.withDefault "default_page_size" default.pageSize (Tree.natBelow? Word.limit32)
  return ⟨name, excerpt, searchFields, renamesId, idField, cascade, pageSize⟩

end EntitySettings

end RecordGuard
