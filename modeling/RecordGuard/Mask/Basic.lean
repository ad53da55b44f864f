import RecordGuard.Text.Blank

/-!
# Projection masks

A mask says of paths whether they are included or excluded. It is a list of entries in the order in
which the paths were first named. A mask does not declare whether it lists what is shown or what is
hidden: its first entry decides, so that an exclusive mask removes the paths it excludes, and any
other mask removes all paths but those it includes.

The compact form of a mask is a text of words: a path for an entry that includes, and a path after
a minus sign for one that excludes (`decode`, `encode`).
-/

namespace RecordGuard

/-- Paths with a flag each, in the order of their first naming. -/
structure Mask where
  entries : List (String × Bool)
  deriving DecidableEq

namespace Mask

/-- The mask without entries. -/
def empty : Mask := ⟨[]⟩

/-- Sets the flag of a path in a list of entries; a path that is there keeps its place. -/
def setEntry : List (String × Bool) → String → Bool → List (String × Bool)
  | [], path, included => [(path, included)]
  | (p, flag) :: rest, path, included =>
    if p = path then (p, included) :: rest else (p, flag) :: setEntry rest path included

/-- Sets the flag of a path. -/
def set (mask : Mask) (path : String) (included : Bool) : Mask :=
  ⟨setEntry mask.entries path included⟩

/-- Includes a path. -/
def withIncluded (mask : Mask) (path : String) : Mask := mask.set path true

/-- Excludes a path. -/
def withExcluded (mask : Mask) (path : String) : Mask := mask.set path false

/-- The mask of the given flags, set one after the other. -/
def ofList (flags : List (String × Bool)) : Mask :=
  flags.foldl (fun mask flag => mask.set flag.1 flag.2) empty

/-- The flag of a path. -/
def get? (mask : Mask) (path : String) : Option Bool :=
  (mask.entries.find? fun entry => entry.1 == path).map Prod.snd

def isEmpty (mask : Mask) : Bool := mask.entries.isEmpty

def size (mask : Mask) : Nat := mask.entries.length

/-- Whether the first entry excludes. -/
def isExclusive (mask : Mask) : Bool :=
  match mask.entries with
  | (_, included) :: _ => !included
  | [] => false

/-- Whether the mask takes a path away. -/
def removes (mask : Mask) (path : String) : Bool :=
  if mask.isExclusive then mask.get? path == some false else mask.get? path != some true

/-- The paths with a given flag. -/
def pathsWith (mask : Mask) (included : Bool) : List String :=
  (mask.entries.filter fun entry => entry.2 == included).map Prod.fst

def included (mask : Mask) : List String := mask.pathsWith true

def excluded (mask : Mask) : List String := mask.pathsWith false

/-- The first mask with all entries of the second set in it. -/
def merge (mask other : Mask) : Mask :=
  other.entries.foldl (fun mask entry => mask.set entry.1 entry.2) mask

/-- The flag that a word of the compact form sets. -/
def ofWord : List Char → String × Bool
  | '-' :: path => (String.ofList path, false)
  | path => (String.ofList path, true)

/-- Reads the compact form. -/
def decode (text : String) : Mask :=
  ofList ((Text.words text.toList).map ofWord)

/-- The word of an entry in the compact form. -/
def word (entry : String × Bool) : String :=
  if entry.2 then entry.1 else "-" ++ entry.1

/-- Writes the compact form. -/
def encode (mask : Mask) : String :=
  String.intercalate " " (mask.entries.map word)

end Mask

end RecordGuard
