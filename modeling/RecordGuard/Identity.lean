import RecordGuard.Json.Record

/-!
# Identities

An identity is a caller whom someone else has authenticated: an identifier if there is one, the
roles in the order in which their permissions are combined, and attributes for the filters of
policies to refer to. `id` and `roles` are attributes of every identity that has them, unless an
attribute of that name was given.
-/

namespace RecordGuard

open Json (Value Tree Record)

/-- An authenticated caller. -/
structure Identity where
  id : Option String
  roles : List String
  attributes : Entries Value

namespace Identity

/-- An identity with nothing but roles. -/
def ofRoles (roles : List String) : Identity := ⟨none, roles, []⟩

def withId (i : Identity) (id : String) : Identity := { i with id := some id }

def withRole (i : Identity) (role : String) : Identity := { i with roles := i.roles ++ [role] }

def withAttribute (i : Identity) (name : String) (value : Value) : Identity :=
  { i with attributes := Entries.insert i.attributes name value }

def hasRole (i : Identity) (role : String) : Bool := i.roles.contains role

/-- The value of an attribute. -/
def attribute? (i : Identity) (name : String) : Option Value :=
  match Entries.get? i.attributes name with
  | some value => some value
  | none =>
    if name = "id" then i.id.map Value.string
    else if name = "roles" then some (.array (i.roles.map Value.string))
    else none

/-- An identity in JSON. -/
def toValue (i : Identity) : Value :=
  .object (
    (if i.attributes.isEmpty then [] else [("attributes", .object i.attributes)]) ++
    (match i.id with
      | some id => [("id", .string id)]
      | none => []) ++
    [("roles", .array (i.roles.map Value.string))])

/-- Reads an identity. -/
def ofTree? (t : Tree) : Option Identity := do
  let r ← Record.ofTree? ["id", "roles", "attributes"] t
  let id ← r.optional "id" Tree.string?
  let roles ← r.withDefault "roles" [] (Tree.list? Tree.string?)
  let attributes ← r.withDefault "attributes" [] (Tree.entries? Tree.value?)
  return ⟨id, roles, attributes⟩

end Identity

end RecordGuard
