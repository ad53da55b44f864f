import RecordGuard.CommandLine.Command

/-!
# The program

The outer layer of the command line: it reads the files that a command asks for, carries the command
out, keeps the store in a file of its directory, and prints the answer.
-/

open RecordGuard RecordGuard.CommandLine

/-- The text of a file that can be read. -/
def readText? (name : String) : IO (Option String) := do
  try
    return some (← IO.FS.readFile name)
  catch _ =>
    return none

/-- The time of the last change of a file, in nanoseconds. -/
def changedAt (name : String) : IO Nat := do
  let stamp := (← ((← IO.currentDir) / name).metadata).modified
  return stamp.sec.toNat * 1000000000 + stamp.nsec.toNat

/-- The file in which a store is kept. -/
def storeFile (data : String) : String := data ++ "/documents.json"

/-- The store in a directory, which is made if it is not there. -/
def loadStore (data : String) : IO Store := do
  IO.FS.createDirAll data
  let text := (← readText? (storeFile data)).getD "\x7b\x7d"
  IO.FS.writeFile (storeFile data) text
  let ids := IdSource.still (← changedAt (storeFile data))
  match (Json.Value.read? text).bind (Store.ofValue? defaultIdField ids .insertion) with
  | some store => return store
  | none => throw (IO.userError ("the store in " ++ data ++ " cannot be read"))

/-- The files and stores on disk. -/
def disk : Command.Environment IO where
  readFile := readText?
  readInput := do (← IO.getStdin).readToEnd
  openStore := loadStore
  saveStore data store := IO.FS.writeFile (storeFile data) store.toValue.compact

/-- Carries out a command. -/
def execute (invocation : Invocation) : IO UInt32 := do
  match ← invocation.command.run disk with
  | .ok answer =>
    IO.println (Command.render invocation.compact answer)
    return 0
  | .error e =>
    IO.eprintln ("Error: " ++ e.message?.getD "invalid policy")
    return 1

def main (arguments : List String) : IO UInt32 := do
  match Command.ofArguments? arguments with
  | some invocation => execute invocation
  | none =>
    IO.eprintln "usage: resolve | plan | redact | import | find, with their options"
    return 2
