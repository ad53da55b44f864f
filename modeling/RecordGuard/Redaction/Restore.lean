import RecordGuard.Redaction.Strip

/-!
# Restoring protected values

An update must not change what its mask protects. `restore` gives every protected path that a
payload touches the value that is stored there, and drops it when nothing is stored there.

An exclusive mask protects the paths it excludes; any other mask protects every path that no
included path covers. Where only some paths below a member are protected, the walk goes on inside
it. A nested object replaces the stored one as a whole, so protected members that the payload leaves
out are filled in; members of the document itself that are left out stay as they are stored. Items
of arrays are paired by their place.
-/

namespace RecordGuard

open Json (Value)

namespace Mask

/-- How the mask treats a path of an update. -/
inductive Access where
  /-- The path may be written. -/
  | allowed
  /-- The path is protected. -/
  | restricted
  /-- Some paths below it are protected, or some are not. -/
  | descend
  deriving DecidableEq

/-- Whether an entry of the mask that differs from its mode lies below the path: an excluded path
of an exclusive mask, an included path of an inclusive one. -/
def leadsBelow (mask : Mask) (path : String) : Bool :=
  mask.entries.any fun entry => entry.2 != mask.isExclusive && Path.isBelow entry.1 path

/-- How the mask treats a path. -/
def access (mask : Mask) (path : String) : Access :=
  if mask.isExclusive then
    if mask.get? path = some false then .restricted
    else if mask.leadsBelow path then .descend
    else .allowed
  else
    if mask.get? path = some true then .allowed
    else if mask.leadsBelow path then .descend
    else .restricted

/-- What happens to a member of the payload. -/
inductive Verdict where
  | keep
  | replace (stored : Value)
  | drop
  | walk

/-- The verdict on a protected value beside the one that is stored in its place. -/
def revert (current : Value) : Option Value → Verdict
  | some stored => if current.same stored then .keep else .replace stored
  | none => .drop

variable (mask : Mask) (reserved : String)

/-- The verdict on the member of a payload with the given key and path. -/
def verdict (key path : String) (current : Value) (stored : Option Value) : Verdict :=
  if isReserved reserved key then .keep
  else
    match mask.access path with
    | .allowed => .keep
    | .restricted => revert current stored
    | .descend => if current.isContainer then .walk else revert current stored

/-- The stored members that are filled in because the payload leaves them out. -/
def missing (path : String) (members stored : Entries Value) : Entries Value :=
  if path = "" then []
  else
    stored.filter fun entry =>
      !Entries.has members entry.1 && !isReserved reserved entry.1 &&
        decide (mask.access (Path.join path entry.1) ≠ .allowed)

/-- The members of the stored value, if it is an object. -/
def storedMembers (stored : Option Value) : Entries Value :=
  (stored.bind Value.members?).getD []

/-- The items of the stored value, if it is an array. -/
def storedItems (stored : Option Value) : List Value :=
  (stored.bind Value.items?).getD []

mutual

/-- The value at a path of the payload with its protected parts restored. -/
def restoreValue (path : String) (stored : Option Value) : Value → Value
  | .array items => .array (restoreItems path (storedItems stored) items)
  | .object members =>
    .object ((mask.missing reserved path members (storedMembers stored)).foldl
      (fun members entry => Entries.insert members entry.1 entry.2)
      (restoreMembers path (storedMembers stored) members))
  | .null => .null
  | .bool b => .bool b
  | .number n => .number n
  | .string s => .string s
termination_by structural v => v

/-- The items of the array at a path, each paired with the stored item in its place. -/
def restoreItems (path : String) (stored : List Value) : List Value → List Value
  | [] => []
  | v :: vs => restoreValue path stored.head? v :: restoreItems path stored.tail vs
termination_by structural vs => vs

/-- The members of the object at a path. -/
def restoreMembers (path : String) (stored : Entries Value) :
    List (String × Value) → List (String × Value)
  | [] => []
  | (key, v) :: ms =>
    match mask.verdict reserved key (Path.join path key) v (Entries.get? stored key) with
    | .keep => (key, v) :: restoreMembers path stored ms
    | .replace s => (key, s) :: restoreMembers path stored ms
    | .drop => restoreMembers path stored ms
    | .walk =>
      (key, restoreValue (Path.join path key) (Entries.get? stored key) v) ::
        restoreMembers path stored ms
termination_by structural ms => ms

end

mutual

/-- The paths in the value at a path whose values change, as they are met. -/
def restoredPaths (path : String) (stored : Option Value) : Value → List String
  | .array items => restoredInItems path (storedItems stored) items
  | .object members =>
    restoredInMembers path (storedMembers stored) members ++
      (mask.missing reserved path members (storedMembers stored)).map
        fun entry => Path.join path entry.1
  | .null => []
  | .bool _ => []
  | .number _ => []
  | .string _ => []
termination_by structural v => v

/-- The paths in the items of the array at a path whose values change. -/
def restoredInItems (path : String) (stored : List Value) : List Value → List String
  | [] => []
  | v :: vs => restoredPaths path stored.head? v ++ restoredInItems path stored.tail vs
termination_by structural vs => vs

/-- The paths in the members of the object at a path whose values change. -/
def restoredInMembers (path : String) (stored : Entries Value) :
    List (String × Value) → List String
  | [] => []
  | (key, v) :: ms =>
    (match mask.verdict reserved key (Path.join path key) v (Entries.get? stored key) with
      | .keep => []
      | .replace _ => [Path.join path key]
      | .drop => [Path.join path key]
      | .walk => restoredPaths (Path.join path key) (Entries.get? stored key) v) ++
      restoredInMembers path stored ms
termination_by structural ms => ms

end

/-- Restores what the mask protects: the payload to write and the paths whose values changed. A
mask without entries protects nothing. -/
def restore (payload : Value) (stored : Option Value) : Value × List String :=
  if mask.isEmpty then (payload, [])
  else
    (mask.restoreValue reserved "" stored payload,
      distinct (mask.restoredPaths reserved "" stored payload))

end Mask

end RecordGuard
