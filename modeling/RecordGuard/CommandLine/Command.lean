import RecordGuard.CommandLine.Arguments
import RecordGuard.CommandLine.Attribute
import RecordGuard.Guarded
import RecordGuard.Include.Plan
import RecordGuard.Store

/-!
# Commands

The commands of the program: `resolve` shows the permissions of a caller, `plan` an include tree,
`redact` a document as a caller sees it, `import` adds documents to a collection and `find` searches
one as a caller. `Command.ofArguments?` reads a command line, `Command.run` carries a command out in
an environment of files and stores, and `Command.render` writes its answer.
-/

namespace RecordGuard.CommandLine

open Json (Value Tree)

/-- Who is asking, under which policy. -/
structure Caller where
  /-- The file of the policy. -/
  policy : Option String
  entity : String
  /-- No role means that the call is trusted. -/
  roles : List String
  attributes : List (String × Value)

/-- Where documents are kept. -/
structure Location where
  /-- The directory of the store. -/
  data : String
  collection : String

/-- A command with its options. -/
inductive Command where
  | resolve (caller : Caller) (action : Option String)
  | plan (catalog entity : String) (projection : Option String) (depth : Nat)
  | redact (caller : Caller) (document : Option String)
  | importFile (location : Location) (file : String)
  | find (location : Location) (caller : Caller) (filter : Option String) (limit : Option Nat)

/-- A command and the form of its answer. -/
structure Invocation where
  command : Command
  compact : Bool

/-! ## Reading a command line -/

/-- The options that tell who is asking. -/
def callerSpecs : List OptionSpec :=
  [{ long := "policy" }, { long := "entity", short := some 'e' },
    { long := "role", short := some 'r', isList := true }, { long := "attr", isList := true }]

/-- The options that tell where documents are kept. -/
def locationSpecs : List OptionSpec := [{ long := "data" }, { long := "collection" }]

/-- The directory of the store when none is given. -/
def defaultData : String := "./crudguard_data"

/-- Reads who is asking. -/
def Caller.ofArguments? (a : Arguments) : Option Caller := do
  let policy ← a.file? "policy"
  let attributes ← (a.all "attr").mapM fun text => (readAttribute text).toOption
  return ⟨policy, (a.get? "entity").getD "entity", a.all "role", attributes⟩

/-- Reads where documents are kept. -/
def Location.ofArguments? (a : Arguments) : Option Location := do
  let data ← a.file? "data"
  return ⟨data.getD defaultData, ← a.get? "collection"⟩

namespace Command

/-- The options of a command. -/
def specs? : String → Option (List OptionSpec)
  | "resolve" => some (callerSpecs ++ [{ long := "action", short := some 'a' }])
  | "plan" => some [{ long := "catalog", short := some 'c' },
      { long := "entity", short := some 'e' }, { long := "projection", short := some 'p' },
      { long := "depth", short := some 'd' }]
  | "redact" => some (callerSpecs ++ [{ long := "document", short := some 'd' }])
  | "import" => some (locationSpecs ++ [{ long := "file", short := some 'f' }])
  | "find" => some (locationSpecs ++ callerSpecs ++
      [{ long := "filter" }, { long := "limit", short := some 'l' }])
  | _ => none

/-- Reads the options of a command. -/
def ofOptions? (name : String) (a : Arguments) : Option Command :=
  match name with
  | "resolve" => do return .resolve (← Caller.ofArguments? a) (a.get? "action")
  | "plan" => do
    let catalog ← (← a.file? "catalog")
    let entity ← a.get? "entity"
    let depth ← a.numberOf? "depth"
    return .plan catalog entity (a.get? "projection") (depth.getD 1)
  | "redact" => do return .redact (← Caller.ofArguments? a) (← a.file? "document")
  | "import" => do
    let file ← (← a.file? "file")
    return .importFile (← Location.ofArguments? a) file
  | "find" => do
    let limit ← a.numberOf? "limit"
    return .find (← Location.ofArguments? a) (← Caller.ofArguments? a) (a.get? "filter") limit
  | _ => none

/-- Reads the arguments that follow the flags in front of a command. -/
def ofNamed? (compact : Bool) : List String → Option Invocation
  | [] => none
  | name :: rest => do
    let specs ← specs? name
    let a ← Arguments.scan specs rest
    if a.isSingle specs then
      return ⟨← ofOptions? name a, compact || a.compact⟩
    else none

/-- Reads a command line. The flag `--compact` stands before or behind the command. -/
def ofArguments? : List String → Option Invocation
  | "--compact" :: rest => ofNamed? true rest
  | arguments => ofNamed? false arguments

/-! ## Carrying a command out -/

/-- The kinds of texts that a command reads. -/
inductive Source where
  | policy
  | catalog
  | document
  | documents
  | filter
  deriving DecidableEq

/-- The word for a kind of text. -/
def Source.name : Source → String
  | .policy => "policy"
  | .catalog => "catalog"
  | .document => "document"
  | .documents => "documents"
  | .filter => "filter"

/-- Why a command fails. -/
inductive Failure where
  | guard (e : GuardError)
  | lookup (e : LookupError)
  | collection (e : CollectionError)
  | policyRequired
  | reading (source : Source) (file : String)
  | parsing (source : Source)

/-- The report of a failure, where it has one of its own. -/
def Failure.message? : Failure → Option String
  | .guard e => e.message?
  | .lookup e => some e.message
  | .collection e => some e.message
  | .policyRequired => some "--policy is required when a role is given"
  | .reading source file => some ("reading " ++ source.name ++ " " ++ file)
  | .parsing source => some ("parsing " ++ source.name)

/-- Where a command finds what it asks for, with the effects of asking. -/
structure Environment (m : Type → Type) where
  /-- The text of a file that can be read. -/
  readFile : String → m (Option String)
  /-- The text of the standard input. -/
  readInput : m String
  /-- The store in a directory; both are made if they are not there. -/
  openStore : String → m Store
  /-- Keeps a store in its directory. -/
  saveStore : String → Store → m Unit

variable {m : Type → Type} [Monad m] (env : Environment m)

/-- The text of a file. -/
def readFile (source : Source) (file : String) : ExceptT Failure m String := do
  match ← env.readFile file with
  | some text => return text
  | none => throw (.reading source file)

/-- A step that fails for a reason of its own. -/
def attempt {ε α : Type} (failure : ε → Failure) (step : Except ε α) : ExceptT Failure m α :=
  ExceptT.mk (pure (step.mapError failure))

/-- The resolver of a caller's policy. -/
def resolver (caller : Caller) : ExceptT Failure m Resolver := do
  match caller.policy with
  | some file =>
    let text ← readFile env .policy file
    let policy ← attempt .guard (Policy.read text)
    return ⟨caller.entity, some policy, {}⟩
  | none =>
    if caller.roles.isEmpty then return ⟨caller.entity, none, {}⟩
    else throw .policyRequired

/-- The identity of a caller; none for a trusted call. -/
def identity (caller : Caller) : Option Identity :=
  if caller.roles.isEmpty then none
  else
    some (caller.attributes.foldl (fun i a => i.withAttribute a.1 a.2)
      (Identity.ofRoles caller.roles))

/-- The permissions of a caller, by action. -/
def runResolve (caller : Caller) (action : Option String) : ExceptT Failure m Value := do
  let resolver ← resolver env caller
  let actions ←
    match action with
    | some text => do pure [← attempt .guard (Action.ofText text)]
    | none => pure Action.all
  let members ← actions.mapM fun action => do
    let permission ← attempt .guard (resolver.resolve (identity caller) action)
    return (action.name, permission.toValue)
  return (Value.object members).canonical

/-- The include tree of an entity. -/
def runPlan (catalog entity : String) (projection : Option String) (depth : Nat) :
    ExceptT Failure m Value := do
  let text ← readFile env .catalog catalog
  let catalog ← attempt (fun _ => .parsing .catalog) (Catalog.read text)
  let mask := (projection.map Mask.decode).getD Mask.empty
  let tree ← attempt .lookup (catalog.planMask entity mask depth)
  return tree.toValue.canonical

/-- A document as a caller sees it. -/
def runRedact (caller : Caller) (document : Option String) : ExceptT Failure m Value := do
  let text ←
    match document with
    | some file => readFile env .document file
    | none => env.readInput
  match Value.read? text with
  | none => throw (.parsing .document)
  | some document =>
    let resolver ← resolver env caller
    let permission ← attempt .guard (resolver.require (identity caller) .read)
    return match permission.projection with
      | some mask => mask.redact (GuardSettings.reserved {}) document
      | none => document

/-- Adds the documents of a file to a collection. The documents before one that cannot be stored
stay. -/
def runImport (location : Location) (file : String) : ExceptT Failure m Value := do
  let text ← readFile env .documents file
  match (Tree.read? text).bind (Tree.list? Tree.value?) with
  | none => throw (.parsing .documents)
  | some documents =>
    let store ← env.openStore location.data
    let (result, c) := (store.collection location.collection).insertAll documents
    env.saveStore location.data (store.put location.collection c)
    let n ← attempt .collection result
    return .object [("imported", .integer n)]

/-- The documents of a collection that a caller may read. -/
def runFind (location : Location) (caller : Caller) (filter : Option String)
    (limit : Option Nat) : ExceptT Failure m Value := do
  let filter ←
    match filter with
    | none => pure none
    | some text =>
      match Filter.read? text with
      | some f => pure (some f)
      | none => throw (.parsing .filter)
  let store ← env.openStore location.data
  env.saveStore location.data (store.openCollection location.collection)
  let resolver ← resolver env caller
  let settings : GuardSettings := {}
  let guard : Guard := ⟨{ resolver with reserved := settings.roles }, settings.reserved⟩
  let c := store.collection location.collection
  match guard.find c (identity caller) filter [] limit with
  | .ok documents => return .array documents
  | .error (.guard e) => throw (.guard e)
  | .error (.collection e) => throw (.collection e)

/-- Carries a command out and gives its answer. -/
def run : Command → ExceptT Failure m Value
  | .resolve caller action => runResolve env caller action
  | .plan catalog entity projection depth => runPlan env catalog entity projection depth
  | .redact caller document => runRedact env caller document
  | .importFile location file => runImport env location file
  | .find location caller filter limit => runFind env location caller filter limit

/-- The text of an answer. -/
def render (compact : Bool) (answer : Value) : String :=
  if compact then answer.compact else answer.pretty

end Command

end RecordGuard.CommandLine
