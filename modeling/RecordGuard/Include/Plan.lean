import RecordGuard.Catalog
import RecordGuard.Include.Tree
import RecordGuard.Mask.Basic
import RecordGuard.Path

/-!
# Planning include trees

A projection of dotted paths over the associations of a catalog is turned into an include tree.
Paths are followed segment by segment: at a model, a path that is the name of an attribute goes
into the attributes of the node, and one that starts with an association goes on at its target. An
inclusive projection loads the associations that some path starts with, an exclusive one and no
projection load them all. Associations are loaded down to a given level, which bounds the tree also
where associations lead round in circles; paths are still checked one level further.
-/

namespace RecordGuard

open Json (Value Tree Record)

/-- The paths that are loaded, or those that are not. -/
inductive PlanProjection where
  | inclusive (paths : List String)
  | exclusive (paths : List String)
  deriving DecidableEq

namespace PlanProjection

def paths : PlanProjection → List String
  | .inclusive paths => paths
  | .exclusive paths => paths

def isExclusive : PlanProjection → Bool
  | .inclusive _ => false
  | .exclusive _ => true

/-- The projection of a mask. -/
def ofMask (mask : Mask) : PlanProjection :=
  if mask.isExclusive then .exclusive mask.excluded else .inclusive mask.included

/-- A projection in JSON. -/
def toValue : PlanProjection → Value
  | .inclusive paths => .array (paths.map Value.string)
  | .exclusive paths =>
    .object [("exclusive", .bool true), ("paths", .array (paths.map Value.string))]

/-- Reads a projection. All of it has to be readable, also what is not asked for. -/
def ofTree? (t : Tree) : Option PlanProjection :=
  match t with
  | .array _ => (t.list? Tree.string?).map .inclusive
  | t => do
    let r ← Record.ofObject? ["exclusive", "paths"] t
    let exclusive ← r.withDefault "exclusive" false Tree.bool?
    let paths ← r.required "paths" (Tree.list? Tree.string?)
    if t.isReadable then some (if exclusive then .exclusive paths else .inclusive paths) else none

/-- Reads the text of a projection. -/
def read? (text : String) : Option PlanProjection := (Tree.read? text).bind ofTree?

end PlanProjection

/-- What is to be loaded, and how deep. -/
structure PlanRequest where
  projection : Option PlanProjection
  /-- The deepest level of associations; 0 stands for 1. -/
  depth : Nat
  deriving DecidableEq

/-- Reads a request. -/
def PlanRequest.ofTree? (t : Tree) : Option PlanRequest := do
  let r ← Record.ofTree? ["projection", "depthLevel"] t
  let projection ← r.optional "projection" PlanProjection.ofTree?
  let depth ← r.withDefault "depthLevel" 0 (Tree.natBelow? Word.limit64)
  return ⟨projection, depth⟩

/-- Where the first segment of a path leads from a model. -/
inductive PathStep where
  | attribute (name : String)
  | association (name : String) (rest : Option String)
  deriving DecidableEq

namespace PathStep

/-- The step that a path takes from a model, unless it leads nowhere. -/
def ofPath? (model : Model) (path : String) : Option PathStep :=
  let (head, rest) := Path.splitFirst path
  if model.hasAttribute head && rest.isNone then some (.attribute head)
  else if (model.association? head).isSome then some (.association head rest)
  else none

/-- The attribute that is named. -/
def attribute? : PathStep → Option String
  | .attribute name => some name
  | .association _ _ => none

/-- Whether the step follows an association. -/
def follows (association : String) : PathStep → Bool
  | .attribute _ => false
  | .association name _ => name == association

/-- The rest of the path, if the step follows an association and does not end there. -/
def restAt? (association : String) : PathStep → Option String
  | .attribute _ => none
  | .association name rest => if name = association then rest else none

end PathStep

namespace Catalog

/-- The steps of paths at a model; a path that leads nowhere is reported as a whole, with the part
of it that led to the model. -/
def steps (model : Model) (parent : String) : List String → Except LookupError (List PathStep)
  | [] => .ok []
  | path :: rest =>
    match PathStep.ofPath? model path with
    | none => .error (.unknownPath model.name (Path.join parent path))
    | some step => (steps model parent rest).map fun more => step :: more

/-- The choice of attributes that steps make. -/
def choice (exclusive : Bool) (steps : List PathStep) : Option AttributeChoice :=
  match distinct (steps.filterMap PathStep.attribute?) with
  | [] => none
  | names => some (if exclusive then .allBut names else .these names)

/-- The node of a model that an association led to, with `levels` more levels of associations. -/
def planNode (catalog : Catalog) (exclusive : Bool) :
    Nat → Option String → Model → String → List String → Except LookupError IncludeNode
  | 0, association, model, parent, paths => do
    let steps ← steps model parent paths
    return .mk association (choice exclusive steps) none false
  | levels + 1, association, model, parent, paths => do
    let steps ← steps model parent paths
    let wanted := model.associations.filter fun a =>
      exclusive || steps.any (PathStep.follows a.name)
    let nodes ← wanted.mapM fun a => do
      let target ← catalog.model a.target
      planNode catalog exclusive levels (some a.name) target (Path.join parent a.name)
        (steps.filterMap (PathStep.restAt? a.name))
    return .mk association (choice exclusive steps) (IncludeNode.listed nodes) false

/-- The include tree of a request for an entity. -/
def plan (catalog : Catalog) (entity : String) (request : PlanRequest) :
    Except LookupError IncludeNode := do
  let model ← catalog.model entity
  let exclusive := (request.projection.map PlanProjection.isExclusive).getD true
  let paths := (request.projection.map PlanProjection.paths).getD []
  planNode catalog exclusive (max request.depth 1) none model "" paths

/-- The include tree of a mask; a mask without entries is no projection. -/
def planMask (catalog : Catalog) (entity : String) (mask : Mask) (depth : Nat) :
    Except LookupError IncludeNode :=
  catalog.plan entity ⟨if mask.isEmpty then none else some (.ofMask mask), depth⟩

end Catalog

end RecordGuard
