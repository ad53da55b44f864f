import RecordGuard.Redaction.Strip

/-!
# Field selections

A selection says which fields of a document a reader gets: those it shows and the identifier, or
all but those it hides. Both kinds reach into arrays of objects. `apply` selects, `narrow` combines
the selection of a caller with that of a permission, and `ofMask` gives the selection of a mask.
-/

namespace RecordGuard

open Json (Value)

/-- Which fields of a document are given out. -/
inductive Selection where
  | showing (paths : List String)
  | hiding (paths : List String)
  deriving DecidableEq

namespace Selection

def paths : Selection → List String
  | .showing paths => paths
  | .hiding paths => paths

/-- Whether the selection lists what it shows. -/
def isInclusive : Selection → Bool
  | .showing _ => true
  | .hiding _ => false

/-- The selection of a mask. -/
def ofMask (mask : Mask) : Selection :=
  if mask.isExclusive then .hiding mask.excluded else .showing mask.included

section Show

variable (paths : List String)

/-- Whether one of the paths lies below the given one. -/
def someBelow (path : String) : Bool := paths.any fun p => Path.isBelow p path

mutual

/-- What the paths show of the value at a path that none of them covers. Items of an array that
hold no values are dropped. -/
def showValue (path : String) : Value → Value
  | .array items => .array (showItems path items)
  | .object members => .object (showMembers path members)
  | .null => .null
  | .bool b => .bool b
  | .number n => .number n
  | .string s => .string s
termination_by structural v => v

/-- What the paths show of the items of the array at a path. -/
def showItems (path : String) : List Value → List Value
  | [] => []
  | v :: vs =>
    if v.isContainer then showValue path v :: showItems path vs else showItems path vs
termination_by structural vs => vs

/-- What the paths show of the members of the object at a path. -/
def showMembers (path : String) : List (String × Value) → List (String × Value)
  | [] => []
  | (key, v) :: ms =>
    if paths.contains (Path.join path key) then (key, v) :: showMembers path ms
    else if v.isContainer && someBelow paths (Path.join path key) then
      (key, showValue (Path.join path key) v) :: showMembers path ms
    else showMembers path ms
termination_by structural ms => ms

end

end Show

/-- The part of a document that is given out. What is shown always comes with its identifier. -/
def apply (selection : Selection) (idField : String) (document : Value) : Value :=
  match selection with
  | .showing paths =>
    let shown := showValue paths "" document
    match Path.get? document idField with
    | some id => (Path.set? shown idField id).getD shown
    | none => shown
  | .hiding paths =>
    (Mask.strip (Mask.ofList (paths.map (·, false))) "" document).1

/-- The selection of a caller, restricted by another one. -/
def narrow : Selection → Selection → Selection
  | .hiding current, .hiding restriction =>
    .hiding (restriction.foldl
      (fun paths p => if paths.contains p then paths else paths ++ [p]) current)
  | .showing current, .showing restriction =>
    match current.filter restriction.contains with
    | [] => .showing restriction
    | kept => .showing kept
  | .showing current, .hiding restriction =>
    .showing (current.filter fun p => !restriction.contains p)
  | .hiding current, .showing restriction =>
    .showing (restriction.filter fun p => !current.contains p)

end Selection

end RecordGuard
