import RecordGuard.Json.Value
import RecordGuard.Text.Quoted

/-!
# Dotted paths

A path such as `address.city` names a member of a document through the objects around it. Its
segments are the pieces between the dots; a piece may be empty, so that `a.` is the path of the
member with the empty key inside `a`. Only members of objects are followed, never items of arrays.

`get?`, `set?` and `remove?` work on the list of segments. Setting a path makes the objects it needs
on its way, also in place of a null; it fails, and changes nothing, where something else stands in
the way. `assign` and `takeOut` work on a document in place and give back what has become of it,
also when they find something in the way.
-/

namespace RecordGuard

open Json (Value)

namespace Path

/-- The pieces of a text between separators. -/
def pieces (separator : Char) : List Char → List (List Char)
  | [] => [[]]
  | c :: cs =>
    if c = separator then [] :: pieces separator cs
    else
      match pieces separator cs with
      | [] => [[c]]
      | p :: ps => (c :: p) :: ps

/-- The segments of a path. -/
def segments (path : String) : List String :=
  (pieces '.' path.toList).map String.ofList

/-- The first segment of a path and the path after its dot. -/
def splitFirst (path : String) : String × Option String :=
  let head := path.toList.takeWhile (· ≠ '.')
  match path.toList.dropWhile (· ≠ '.') with
  | [] => (String.ofList head, none)
  | _ :: rest => (String.ofList head, some (String.ofList rest))

/-- The path of a key inside a parent; an empty parent is the document itself. -/
def join (parent key : String) : String :=
  if parent = "" then key else parent ++ "." ++ key

/-- Whether a path lies strictly below another one. -/
def isBelow (path ancestor : String) : Bool :=
  (ancestor ++ ".").toList.isPrefixOf path.toList

/-- Moves a path that is `source`, or lies below it, to `target`; any other path stays. -/
def rename (source target path : String) : String :=
  if path = source then target
  else if isBelow path source then
    target ++ "." ++ String.ofList (path.toList.drop (source.length + 1))
  else path

/-- The value that the segments lead to. -/
def getSegments? : Value → List String → Option Value
  | v, [] => some v
  | v, s :: rest => (v.member? s).bind fun child => getSegments? child rest

/-- The value at a path. -/
def get? (document : Value) (path : String) : Option Value :=
  getSegments? document (segments path)

/-- The members of an object, and none of them for a null. -/
def membersOrNull? : Value → Option (Entries Value)
  | .object members => some members
  | .null => some []
  | _ => none

/-- Sets the value that the segments lead to; none when something is in the way. -/
def setSegments? (value : Value) : List String → Value → Option Value
  | [], _ => some value
  | s :: rest, v => do
    let members ← membersOrNull? v
    let child ← setSegments? value rest ((Entries.get? members s).getD .null)
    return .object (Entries.insert members s child)

/-- Sets the value at a path; none when the path is empty or something is in the way. -/
def set? (document : Value) (path : String) (value : Value) : Option Value :=
  if path = "" then none else setSegments? value (segments path) document

/-- A path at which no value can be set. -/
structure InvalidPath where
  path : String
  deriving DecidableEq

/-- The report of the error. -/
def InvalidPath.message (e : InvalidPath) : String :=
  "invalid field path: " ++ String.ofList (Text.Quoted.display e.path.toList)

/-- Sets the value that the segments lead to, changing the document on the way: whether the value
was set, and what has become of the document. -/
def assignSegments (value : Value) : List String → Value → Bool × Value
  | [], _ => (true, value)
  | s :: rest, v =>
    match membersOrNull? v with
    | none => (false, v)
    | some members =>
      -- the child stays in its place, whatever has become of it
      let (done, child) := assignSegments value rest ((Entries.get? members s).getD .null)
      (done, .object (Entries.insert members s child))

/-- Sets the value at a path in place: the outcome, and the document afterwards. -/
def assign (document : Value) (path : String) (value : Value) : Except InvalidPath Unit × Value :=
  if path = "" then (.error ⟨path⟩, document)
  else
    let (done, document) := assignSegments value (segments path) document
    (if done then .ok () else .error ⟨path⟩, document)

/-- Sets the value at a path. -/
def set (document : Value) (path : String) (value : Value) : Except InvalidPath Value :=
  let (outcome, document) := assign document path value
  outcome.map fun _ => document

/-- Takes out the value that the segments lead to, changing the document on the way: what was found,
and what has become of the document. -/
def takeSegments : List String → Value → Option Value × Value
  | [], v => (none, v)
  | [s], v =>
    match v.members? with
    | none => (none, v)
    | some members => (Entries.get? members s, .object (Entries.erase members s))
  | s :: t :: rest, v =>
    match v.members? with
    | none => (none, v)
    | some members =>
      match Entries.get? members s with
      | none => (none, v)
      | some child =>
        let (found, child) := takeSegments (t :: rest) child
        (found, .object (Entries.insert members s child))

/-- Takes out the value at a path in place: what was found, and the document afterwards. -/
def takeOut (document : Value) (path : String) : Option Value × Value :=
  takeSegments (segments path) document

/-- Takes out the value at a path: the value and the document without it. -/
def remove? (document : Value) (path : String) : Option (Value × Value) :=
  let (found, document) := takeOut document path
  found.map fun v => (v, document)

end Path

end RecordGuard
