import RecordGuard.Json.Reader
import RecordGuard.Json.Record

/-!
# Include trees

An include tree says which associations of an entity are loaded with it, and with which attributes.
Every node but the root stands for an association. A node that loads nothing further has no list of
children, which is different from an empty one.
-/

namespace RecordGuard

open Json (Value Tree Record)

/-- Which attributes are loaded. -/
inductive AttributeChoice where
  | these (names : List String)
  | allBut (names : List String)
  deriving DecidableEq

/-- What is loaded of one entity. -/
inductive IncludeNode where
  | mk (association : Option String) (attributes : Option AttributeChoice)
    (children : Option (List IncludeNode)) (duplicating : Bool)

namespace AttributeChoice

/-- The names that are mentioned. -/
def names : AttributeChoice → List String
  | .these names => names
  | .allBut names => names

/-- A choice in JSON. -/
def toValue : AttributeChoice → Value
  | .these names => .array (names.map Value.string)
  | .allBut names => .object [("exclude", .array (names.map Value.string))]

/-- Reads a choice. All of it has to be readable, also what is not asked for. -/
def ofTree? (t : Tree) : Option AttributeChoice :=
  match t with
  | .array _ => (t.list? Tree.string?).map .these
  | t => do
    let r ← Record.ofObject? ["exclude"] t
    let names ← r.required "exclude" (Tree.list? Tree.string?)
    if t.isReadable then some (.allBut names) else none

end AttributeChoice

namespace IncludeNode

def association : IncludeNode → Option String
  | .mk association _ _ _ => association

def attributes : IncludeNode → Option AttributeChoice
  | .mk _ attributes _ _ => attributes

def children : IncludeNode → Option (List IncludeNode)
  | .mk _ _ children _ => children

def duplicating : IncludeNode → Bool
  | .mk _ _ _ duplicating => duplicating

/-- The list of children as a node holds it: none for no child. -/
def listed (nodes : List IncludeNode) : Option (List IncludeNode) :=
  if nodes.isEmpty then none else some nodes

/-- The node with the given children in place of its own. -/
def withChildren (node : IncludeNode) (nodes : List IncludeNode) : IncludeNode :=
  .mk node.association node.attributes (listed nodes) node.duplicating

/-- The first child for an association. -/
def child? (node : IncludeNode) (association : String) : Option IncludeNode :=
  node.children.bind fun nodes => nodes.find? fun n => n.association == some association

mutual

/-- The number of levels below a node. -/
def depth : IncludeNode → Nat
  | .mk _ _ none _ => 0
  | .mk _ _ (some nodes) _ => 1 + depthOfEach nodes
termination_by structural node => node

/-- The greatest number of levels below one of the nodes. -/
def depthOfEach : List IncludeNode → Nat
  | [] => 0
  | n :: ns => max (depth n) (depthOfEach ns)
termination_by structural ns => ns

end

mutual

/-- A node in JSON, without the members it does not have. -/
def toValue : IncludeNode → Value
  | .mk association attributes children duplicating =>
    .object (
      (match association with
        | some name => [("association", Value.string name)]
        | none => []) ++
      (match attributes with
        | some choice => [("attributes", choice.toValue)]
        | none => []) ++
      [("duplicating", .bool duplicating)] ++
      (match children with
        | some nodes => [("include", .array (toValues nodes))]
        | none => []))
termination_by structural node => node

/-- Nodes in JSON. -/
def toValues : List IncludeNode → List Value
  | [] => []
  | n :: ns => toValue n :: toValues ns
termination_by structural ns => ns

end

/-- The fields of a node in the order of their declaration. -/
def fieldNames : List String := ["association", "attributes", "include", "duplicating"]

/-- Reads what a node says besides its children. -/
def ofRecord? (r : Record) (children : Option (List IncludeNode)) : Option IncludeNode := do
  let association ← r.optional "association" Tree.string?
  let attributes ← r.optional "attributes" AttributeChoice.ofTree?
  let duplicating ← r.required "duplicating" Tree.bool?
  return .mk association attributes children duplicating

mutual

/-- Reads a node. -/
def ofTree? : Tree → Option IncludeNode
  | .object members => do
    ofRecord? (← Record.ofMembers? fieldNames members) (← childrenIn? members)
  | .array [association, attributes, children, duplicating] => do
    ofRecord? (← Record.ofTree? fieldNames (.array [association, attributes, .null, duplicating]))
      (← children? children)
  | _ => none
termination_by structural t => t

/-- Reads the children among the members of a node. -/
def childrenIn? : List (String × Tree) → Option (Option (List IncludeNode))
  | [] => some none
  | (key, t) :: rest => if key = "include" then children? t else childrenIn? rest
termination_by structural ms => ms

/-- Reads a list of children, if there is one. -/
def children? : Tree → Option (Option (List IncludeNode))
  | .null => some none
  | .array items => (ofTrees? items).map some
  | _ => none
termination_by structural t => t

/-- Reads each node of a list. -/
def ofTrees? : List Tree → Option (List IncludeNode)
  | [] => some []
  | t :: ts => do return (← ofTree? t) :: (← ofTrees? ts)
termination_by structural ts => ts

end

/-- Reads the text of a node. -/
def read? (text : String) : Option IncludeNode := (Tree.read? text).bind ofTree?

end IncludeNode

end RecordGuard
