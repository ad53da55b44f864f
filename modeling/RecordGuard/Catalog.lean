import RecordGuard.Distinct
import RecordGuard.Entries
import RecordGuard.Json.Reader
import RecordGuard.Json.Record

/-!
# Catalogs of models

A model names the attributes of an entity and its associations, each of which leads to an entity by
its name; associations may lead round in circles. A catalog holds models by their names, and lists
the names in the order in which the models came. `add` keeps the names of the models, and the names
of the members of each model, distinct; `validate` checks that every association leads to a model of
the catalog.
-/

namespace RecordGuard

open Json (Value Tree Record)

/-- A named way from one entity to another. -/
structure Association where
  name : String
  target : String
  deriving DecidableEq

/-- An association in JSON. -/
def Association.toValue (a : Association) : Value :=
  .object [("name", .string a.name), ("target", .string a.target)]

/-- Reads an association. -/
def Association.ofTree? (t : Tree) : Option Association := do
  let r ← Record.ofTree? ["name", "target"] t
  return ⟨← r.required "name" Tree.string?, ← r.required "target" Tree.string?⟩

/-- The attributes and associations of an entity. -/
structure Model where
  name : String
  attributes : List String
  associations : List Association
  deriving DecidableEq

namespace Model

def hasAttribute (model : Model) (name : String) : Bool := model.attributes.contains name

/-- The association of a name. -/
def association? (model : Model) (name : String) : Option Association :=
  model.associations.find? fun a => a.name == name

/-- The names of attributes and associations, in the order of their declaration. -/
def members (model : Model) : List String :=
  model.attributes ++ model.associations.map Association.name

/-- A model in JSON. -/
def toValue (model : Model) : Value :=
  .object [
    ("associations", .array (model.associations.map Association.toValue)),
    ("attributes", .array (model.attributes.map Value.string)),
    ("name", .string model.name)]

/-- Reads a model. -/
def ofTree? (t : Tree) : Option Model := do
  let r ← Record.ofTree? ["name", "attributes", "associations"] t
  let name ← r.required "name" Tree.string?
  let attributes ← r.withDefault "attributes" [] (Tree.list? Tree.string?)
  let associations ← r.withDefault "associations" [] (Tree.list? Association.ofTree?)
  return ⟨name, attributes, associations⟩

end Model

/-- What is wrong with a list of models. -/
inductive CatalogError where
  | duplicateModel (model : String)
  | duplicateMember (member model : String)
  | unknownTarget (model association target : String)
  deriving DecidableEq

/-- The report of an error. -/
def CatalogError.message : CatalogError → String
  | .duplicateModel model => "invalid catalog: duplicate model: " ++ model
  | .duplicateMember member model =>
    "invalid catalog: duplicate member '" ++ member ++ "' on model '" ++ model ++ "'"
  | .unknownTarget model association target =>
    "invalid catalog: association '" ++ model ++ "." ++ association ++
      "' targets unknown model '" ++ target ++ "'"

/-- What is asked of a catalog that it does not know. -/
inductive LookupError where
  | unknownEntity (name : String)
  | unknownPath (entity path : String)
  deriving DecidableEq

/-- The report of an error. -/
def LookupError.message : LookupError → String
  | .unknownEntity name => "unknown entity: " ++ name
  | .unknownPath entity path => "unknown path '" ++ path ++ "' on entity '" ++ entity ++ "'"

/-- Models by their names, and the names in the order of their registration. -/
structure Catalog where
  byName : Entries Model
  names : List String
  deriving DecidableEq

namespace Catalog

/-- The catalog without models. -/
def empty : Catalog := ⟨[], []⟩

/-- The model of a name. -/
def get? (catalog : Catalog) (name : String) : Option Model := Entries.get? catalog.byName name

def has (catalog : Catalog) (name : String) : Bool := Entries.has catalog.byName name

/-- The models in the order of their registration. -/
def models (catalog : Catalog) : List Model := catalog.names.filterMap catalog.get?

def isEmpty (catalog : Catalog) : Bool := catalog.byName.isEmpty

/-- The number of models. -/
def size (catalog : Catalog) : Nat := catalog.byName.length

/-- The first element of a list that stands in it before. -/
def firstRepeat? : List String → List String → Option String
  | _, [] => none
  | seen, name :: rest => if name ∈ seen then some name else firstRepeat? (name :: seen) rest

/-- Adds a model, whose associations may still lead nowhere. -/
def add (catalog : Catalog) (model : Model) : Except CatalogError Catalog :=
  if catalog.has model.name then .error (.duplicateModel model.name)
  else
    match firstRepeat? [] model.members with
    | some member => .error (.duplicateMember member model.name)
    | none =>
      .ok ⟨Entries.insert catalog.byName model.name model, catalog.names ++ [model.name]⟩

/-- Every association, with the name of its model. -/
def associations (catalog : Catalog) : List (String × Association) :=
  catalog.models.flatMap fun model => model.associations.map fun a => (model.name, a)

/-- Checks that every association leads to a model. -/
def validate (catalog : Catalog) : Except CatalogError Unit :=
  match catalog.associations.find? fun (_, a) => !catalog.has a.target with
  | some (model, a) => .error (.unknownTarget model a.name a.target)
  | none => .ok ()

/-- The catalog of a list of models. -/
def ofModels (models : List Model) : Except CatalogError Catalog := do
  let catalog ← models.foldlM add empty
  catalog.validate
  return catalog

/-- The model of a name that has to be known. -/
def model (catalog : Catalog) (name : String) : Except LookupError Model :=
  match catalog.get? name with
  | some model => .ok model
  | none => .error (.unknownEntity name)

/-- The model that an association of an entity leads to. -/
def targetOf (catalog : Catalog) (entity association : String) : Except LookupError Model := do
  let model ← catalog.model entity
  match model.association? association with
  | some a => catalog.model a.target
  | none => throw (.unknownPath entity association)

/-- Takes the models of the names out of the entries, one after the other. -/
def takeModels : List String → Entries Model → List Model
  | [], _ => []
  | name :: names, entries =>
    match Entries.get? entries name with
    | some model => model :: takeModels names (Entries.erase entries name)
    | none => takeModels names entries

/-- The models that a catalog is given up for. -/
def toModels (catalog : Catalog) : List Model := takeModels catalog.names catalog.byName

/-- A catalog in JSON. -/
def toValue (catalog : Catalog) : Value := .array (catalog.toModels.map Model.toValue)

/-- Why a text is no catalog. -/
inductive ReadError where
  | malformed
  | invalid (e : CatalogError)

/-- The report of an error, where it has one of its own. -/
def ReadError.message? : ReadError → Option String
  | .malformed => none
  | .invalid e => some e.message

/-- Reads the text of a catalog. The models are checked before the text behind them is. -/
def read (text : String) : Except ReadError Catalog :=
  match Json.Reader.first text.toList with
  | none => .error .malformed
  | some (t, rest) =>
    match t.list? Model.ofTree? with
    | none => .error .malformed
    | some models =>
      match ofModels models with
      | .error e => .error (.invalid e)
      | .ok catalog => if Json.Reader.isEnd rest then .ok catalog else .error .malformed

end Catalog

end RecordGuard
