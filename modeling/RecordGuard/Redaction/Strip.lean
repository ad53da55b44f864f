import RecordGuard.Distinct
import RecordGuard.Mask.Basic
import RecordGuard.Path

/-!
# Stripping documents

Stripping a document by a mask deletes every member whose path the mask removes. Objects inside
arrays are walked under the path of the array. A key that starts with the reserved text, such as
`_id` with `_`, is neither deleted nor walked; with the empty text no key is reserved.

`strip` gives the document that is left and the paths that were deleted, those below a deleted
member included, children before their parent and each path once.
-/

namespace RecordGuard

open Json (Value)

/-- Whether a key is reserved, by the text that reserved keys start with. -/
def isReserved (reserved key : String) : Bool :=
  reserved != "" && reserved.toList.isPrefixOf key.toList

namespace Mask

variable (mask : Mask) (reserved : String)

mutual

/-- What is left of the value at a path. -/
def stripValue (path : String) : Value → Value
  | .array items => .array (stripItems path items)
  | .object members => .object (stripMembers path members)
  | .null => .null
  | .bool b => .bool b
  | .number n => .number n
  | .string s => .string s
termination_by structural v => v

/-- What is left of the items of the array at a path. -/
def stripItems (path : String) : List Value → List Value
  | [] => []
  | v :: vs => stripValue path v :: stripItems path vs
termination_by structural vs => vs

/-- What is left of the members of the object at a path. -/
def stripMembers (path : String) : List (String × Value) → List (String × Value)
  | [] => []
  | (key, v) :: ms =>
    if isReserved reserved key then (key, v) :: stripMembers path ms
    else if mask.removes (Path.join path key) then stripMembers path ms
    else (key, stripValue (Path.join path key) v) :: stripMembers path ms
termination_by structural ms => ms

end

mutual

/-- The paths that are deleted from the value at a path, as they are met. -/
def strippedPaths (path : String) : Value → List String
  | .array items => strippedFromItems path items
  | .object members => strippedFromMembers path members
  | .null => []
  | .bool _ => []
  | .number _ => []
  | .string _ => []
termination_by structural v => v

/-- The paths that are deleted from the items of the array at a path. -/
def strippedFromItems (path : String) : List Value → List String
  | [] => []
  | v :: vs => strippedPaths path v ++ strippedFromItems path vs
termination_by structural vs => vs

/-- The paths that are deleted from the members of the object at a path. -/
def strippedFromMembers (path : String) : List (String × Value) → List String
  | [] => []
  | (key, v) :: ms =>
    if isReserved reserved key then strippedFromMembers path ms
    else
      strippedPaths (Path.join path key) v ++
        (if mask.removes (Path.join path key) then [Path.join path key] else []) ++
        strippedFromMembers path ms
termination_by structural ms => ms

end

/-- Deletes what the mask removes: the document that is left and the deleted paths. A mask without
entries removes nothing. -/
def strip (document : Value) : Value × List String :=
  if mask.isEmpty then (document, [])
  else (mask.stripValue reserved "" document, distinct (mask.strippedPaths reserved "" document))

/-- The document as a reader sees it under the mask. -/
def redact (document : Value) : Value :=
  (mask.strip reserved document).1

end Mask

end RecordGuard
