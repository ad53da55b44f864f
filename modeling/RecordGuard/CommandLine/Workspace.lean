import RecordGuard.CommandLine.Command

/-!
# Workspaces

A workspace is a tree of directories in memory with the files and the stores that commands find in
it. A name is followed step by step from the working directory: an empty step or `.` stays where it
is, and `..` goes up, also above the working directory. A file is found only through directories
that are there, in the place that the steps lead to (`eq_foldl_of_follow?`), while opening a store
makes the directories on its way. So two names that lead to one place are names of one store.
-/

namespace RecordGuard.CommandLine

open Json (Value)

/-- A place in a tree of directories: the steps that lead to it from the working directory, the last
one first. Places above the working directory end in `..`, those of absolute names in `/`. -/
abbrev Place := List String

namespace Place

/-- Where a step leads to. -/
def step : Place → String → Place
  | place, "" => place
  | place, "." => place
  | [], ".." => [".."]
  | "/" :: above, ".." => "/" :: above
  | ".." :: above, ".." => ".." :: ".." :: above
  | _ :: above, ".." => above
  | place, name => name :: place

/-- The place where the steps of a name start. -/
def start (name : String) : Place :=
  match name.toList with
  | '/' :: _ => ["/"]
  | _ => []

/-- The steps of a name. -/
def steps (name : String) : List String :=
  (Path.pieces '/' name.toList).map String.ofList

/-- The place that a name leads to. -/
def ofName (name : String) : Place := (steps name).foldl step (start name)

end Place

/-- Files and stores by their places. -/
structure Workspace where
  files : List (Place × String) := []
  directories : List Place := []
  stores : List (Place × Store) := []
  /-- Where identifiers for new documents come from. -/
  ids : IdSource
  /-- How the library sorts. -/
  sorter : Sorter Value

namespace Workspace

variable (w : Workspace)

/-- Whether there is a directory in a place. -/
def isDirectory : Place → Bool
  | [] => true
  | ".." :: _ => true
  | ["/"] => true
  | place => w.directories.contains place

/-- Where steps lead to through directories that are there. -/
def follow? : Place → List String → Option Place
  | place, [] => some place
  | place, step :: steps => if w.isDirectory place then follow? (place.step step) steps else none

theorem eq_foldl_of_follow? {place found : Place} {steps : List String}
    (h : w.follow? place steps = some found) : found = steps.foldl Place.step place := by
  induction steps generalizing place with
  | nil => exact (Option.some.inj h).symm
  | cons step steps ih =>
    by_cases hd : w.isDirectory place
    · exact ih (by simpa [follow?, hd] using h)
    · simp [follow?, hd] at h

/-- The text of the file of a name. -/
def read? (name : String) : Option String :=
  (w.follow? (Place.start name) (Place.steps name)).bind fun place => w.files.lookup place

/-- Makes the directories on the way of some steps. -/
def makeDirectories (w : Workspace) : Place → List String → Workspace
  | _, [] => w
  | place, step :: steps =>
    let place := place.step step
    let w := if w.isDirectory place then w else { w with directories := place :: w.directories }
    makeDirectories w place steps

/-- Puts a file in, and the directories on its way. -/
def addFile (name text : String) : Workspace :=
  let w := w.makeDirectories (Place.start name) (Place.steps name).dropLast
  { w with files := (Place.ofName name, text) :: w.files }

/-- Opens the store in a directory. -/
def openStore (name : String) : Store × Workspace :=
  let store :=
    (w.stores.lookup (Place.ofName name)).getD (Store.empty defaultIdField w.ids w.sorter)
  ({ store with ids := w.ids }, w.makeDirectories (Place.start name) (Place.steps name))

/-- Keeps a store in its directory. -/
def saveStore (name : String) (store : Store) : Workspace :=
  let place := Place.ofName name
  let others := w.stores.filter fun entry => entry.1 != place
  { w with stores := (place, store) :: others, ids := store.ids }

/-- The workspace as the environment of a command with the given standard input. -/
def environment (input : String) : Command.Environment (StateM Workspace) where
  readFile name := return (← get).read? name
  readInput := return input
  openStore name := modifyGet fun w => w.openStore name
  saveStore name store := modify fun w => w.saveStore name store

/-- Carries a command out. -/
def run (command : Command) (input : String) : Except Command.Failure Value × Workspace :=
  ((command.run (environment input)).run.run w).run

end Workspace

end RecordGuard.CommandLine
