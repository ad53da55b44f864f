import RecordGuard.Error
import RecordGuard.Filter.Codec
import RecordGuard.Identity

/-!
# Filter templates

A template is a filter that may refer to attributes of the caller. `resolve` puts the caller's
values in; it fails with the first attribute, from left to right, that the caller does not have.
-/

namespace RecordGuard

open Json (Value Tree Record)

/-- A filter with references to attributes of the caller. -/
inductive Template where
  | standard (filter : Filter)
  /-- The field has the value of the attribute. -/
  | attributeEq (field name : String)
  /-- The field has one of the values of the attribute, or its only value if it is no list. -/
  | attributeIn (field name : String)
  | all (templates : List Template)
  | any (templates : List Template)

namespace Template

/-- The value of an attribute that has to be there. -/
def lookup (identity : Identity) (name : String) : Except GuardError Value :=
  match identity.attribute? name with
  | some value => .ok value
  | none => .error (.missingAttribute name)

/-- The values of an attribute: the items of a list, or the value itself. -/
def valuesOf : Value → List Value
  | .array values => values
  | value => [value]

mutual

/-- The filter of a template for a caller. -/
def resolve (identity : Identity) : Template → Except GuardError Filter
  | .standard filter => .ok filter
  | .attributeEq field name =>
    (lookup identity name).map fun value => Filter.eq field value
  | .attributeIn field name =>
    (lookup identity name).map fun value => .field field (.oneOf (valuesOf value))
  | .all templates =>
    (resolveEach identity templates).map fun filters => (Filter.allOf filters).getD (.all [])
  | .any templates =>
    (resolveEach identity templates).map fun filters => (Filter.anyOf filters).getD (.any [])
termination_by structural t => t

/-- The filters of templates for a caller. -/
def resolveEach (identity : Identity) : List Template → Except GuardError (List Filter)
  | [] => .ok []
  | t :: ts => do
    let filter ← resolve identity t
    let filters ← resolveEach identity ts
    return filter :: filters
termination_by structural ts => ts

end

mutual

/-- A template in JSON. -/
def toValue : Template → Value
  | .standard filter => .object [("standard", filter.toValue)]
  | .attributeEq field name =>
    .object [("attribute_eq",
      .object [("field", .string field), ("attribute", .string name)])]
  | .attributeIn field name =>
    .object [("attribute_in",
      .object [("field", .string field), ("attribute", .string name)])]
  | .all templates => .object [("and", .array (toValues templates))]
  | .any templates => .object [("or", .array (toValues templates))]
termination_by structural t => t

/-- Templates in JSON. -/
def toValues : List Template → List Value
  | [] => []
  | t :: ts => toValue t :: toValues ts
termination_by structural ts => ts

end

/-- Reads a reference to an attribute. -/
def reference? (template : String → String → Template) (body : Tree) : Option Template := do
  let r ← Record.ofTree? ["field", "attribute"] body
  let field ← r.required "field" Tree.string?
  let name ← r.required "attribute" Tree.string?
  return template field name

/-- Reads a template that holds no other templates, by its name. -/
def ofNamed? (name : String) (body : Tree) : Option Template :=
  match name with
  | "standard" => (Filter.ofTree? body).map .standard
  | "attribute_eq" => reference? .attributeEq body
  | "attribute_in" => reference? .attributeIn body
  | _ => none

mutual

/-- Reads a template. -/
def ofTree? : Tree → Option Template
  | .object [(name, .array items)] =>
    match name with
    | "and" => (ofTrees? items).map .all
    | "or" => (ofTrees? items).map .any
    | name => ofNamed? name (.array items)
  | .object [(name, body)] => ofNamed? name body
  | _ => none
termination_by structural t => t

/-- Reads each template of a list. -/
def ofTrees? : List Tree → Option (List Template)
  | [] => some []
  | t :: ts => do return (← ofTree? t) :: (← ofTrees? ts)
termination_by structural ts => ts

end

end Template

end RecordGuard
