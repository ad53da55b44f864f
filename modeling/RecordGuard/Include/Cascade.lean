import RecordGuard.Json.Reader
import RecordGuard.Json.Record

/-!
# Cascades

A cascade lists the associations that are written along with an entity, each by its name or with a
list of its own. `CascadeField` is the form in which they are declared, `CascadeInclude` the form
in which a store takes them; the two differ only in the names of their JSON members.
-/

namespace RecordGuard

open Json (Value Tree Record)

/-- A declared association. -/
inductive CascadeField where
  | name (field : String)
  | nested (field : String) (fields : Option (List CascadeField))

/-- An association as a store takes it. -/
inductive CascadeInclude where
  | name (association : String)
  | nested (association : String) (includes : Option (List CascadeInclude))

namespace CascadeField

mutual

/-- The form for the store. -/
def toInclude : CascadeField → CascadeInclude
  | .name field => .name field
  | .nested field none => .nested field none
  | .nested field (some fields) => .nested field (some (toIncludes fields))
termination_by structural f => f

/-- The forms for the store. -/
def toIncludes : List CascadeField → List CascadeInclude
  | [] => []
  | f :: fs => toInclude f :: toIncludes fs
termination_by structural fs => fs

end

mutual

/-- A declaration in JSON. -/
def toValue : CascadeField → Value
  | .name field => .string field
  | .nested field none => .object [("field", .string field)]
  | .nested field (some fields) =>
    .object [("cascadeFields", .array (toValues fields)), ("field", .string field)]
termination_by structural f => f

/-- Declarations in JSON. -/
def toValues : List CascadeField → List Value
  | [] => []
  | f :: fs => toValue f :: toValues fs
termination_by structural fs => fs

end

mutual

/-- Reads a declaration. All of it has to be readable, also what is not asked for. -/
def ofTree? : Tree → Option CascadeField
  | .string field => some (.name field)
  | .object members => do
    let r ← Record.ofMembers? ["field", "cascadeFields"] members
    let field ← r.required "field" Tree.string?
    let fields ← fieldsIn? members
    if (Tree.object members).isReadable then some (.nested field fields) else none
  | _ => none
termination_by structural t => t

/-- Reads the nested list among the members of a declaration. -/
def fieldsIn? : List (String × Tree) → Option (Option (List CascadeField))
  | [] => some none
  | (key, t) :: rest => if key = "cascadeFields" then fields? t else fieldsIn? rest
termination_by structural ms => ms

/-- Reads a nested list, if there is one. -/
def fields? : Tree → Option (Option (List CascadeField))
  | .null => some none
  | .array items => (ofTrees? items).map some
  | _ => none
termination_by structural t => t

/-- Reads each declaration of a list. -/
def ofTrees? : List Tree → Option (List CascadeField)
  | [] => some []
  | t :: ts => do return (← ofTree? t) :: (← ofTrees? ts)
termination_by structural ts => ts

end

/-- Reads a list of declarations. -/
def listOfTree? : Tree → Option (List CascadeField)
  | .array items => ofTrees? items
  | _ => none

/-- Reads the text of a list of declarations. -/
def read? (text : String) : Option (List CascadeField) := (Tree.read? text).bind listOfTree?

end CascadeField

namespace CascadeInclude

mutual

/-- An association in JSON. -/
def toValue : CascadeInclude → Value
  | .name association => .string association
  | .nested association none => .object [("association", .string association)]
  | .nested association (some includes) =>
    .object [("association", .string association), ("include", .array (toValues includes))]
termination_by structural i => i

/-- Associations in JSON. -/
def toValues : List CascadeInclude → List Value
  | [] => []
  | i :: is => toValue i :: toValues is
termination_by structural is => is

end

mutual

/-- Reads an association. All of it has to be readable, also what is not asked for. -/
def ofTree? : Tree → Option CascadeInclude
  | .string association => some (.name association)
  | .object members => do
    let r ← Record.ofMembers? ["association", "include"] members
    let association ← r.required "association" Tree.string?
    let includes ← includesIn? members
    if (Tree.object members).isReadable then some (.nested association includes) else none
  | _ => none
termination_by structural t => t

/-- Reads the nested list among the members of an association. -/
def includesIn? : List (String × Tree) → Option (Option (List CascadeInclude))
  | [] => some none
  | (key, t) :: rest => if key = "include" then includes? t else includesIn? rest
termination_by structural ms => ms

/-- Reads a nested list, if there is one. -/
def includes? : Tree → Option (Option (List CascadeInclude))
  | .null => some none
  | .array items => (ofTrees? items).map some
  | _ => none
termination_by structural t => t

/-- Reads each association of a list. -/
def ofTrees? : List Tree → Option (List CascadeInclude)
  | [] => some []
  | t :: ts => do return (← ofTree? t) :: (← ofTrees? ts)
termination_by structural ts => ts

end

/-- Reads a list of associations. -/
def listOfTree? : Tree → Option (List CascadeInclude)
  | .array items => ofTrees? items
  | _ => none

/-- Reads the text of a list of associations. -/
def read? (text : String) : Option (List CascadeInclude) := (Tree.read? text).bind listOfTree?

end CascadeInclude

end RecordGuard
