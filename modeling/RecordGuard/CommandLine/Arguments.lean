import RecordGuard.Word

/-!
# Arguments of a command

A command takes options only. An option has a long name and may have a letter. Its value is the
next argument, which must not look like an option, or follows the name after an equals sign; after
a letter it may also follow at once. An option that is not a list is given once at most.
-/

namespace RecordGuard.CommandLine

/-- An option of a command. -/
structure OptionSpec where
  long : String
  short : Option Char := none
  /-- The option may be given several times. -/
  isList : Bool := false

/-- The options that were given, by their long names and in their order, and whether the flag
`--compact` was among them. -/
structure Arguments where
  values : List (String × String)
  compact : Bool

namespace Arguments

/-- What one argument says: a flag, or an option with or without its value. -/
inductive Word where
  | compact
  | option (long : String) (value : Option String)

/-- The text behind the first equals sign, and the text before it. -/
def splitValue (cs : List Char) : List Char × Option (List Char) :=
  match cs.dropWhile (· ≠ '=') with
  | [] => (cs, none)
  | _ :: value => (cs.takeWhile (· ≠ '='), some value)

/-- What an argument says to a command with the given options. -/
def word? (specs : List OptionSpec) (argument : String) : Option Word :=
  match argument.toList with
  | '-' :: '-' :: cs =>
    let (name, value) := splitValue cs
    let name := String.ofList name
    if name = "compact" then if value.isNone then some .compact else none
    else if specs.any fun spec => spec.long == name then
      some (.option name (value.map String.ofList))
    else none
  | '-' :: letter :: cs =>
    match specs.find? fun spec => spec.short == some letter with
    | none => none
    | some spec =>
      let value :=
        match cs with
        | [] => none
        | '=' :: value => some (String.ofList value)
        | value => some (String.ofList value)
      some (.option spec.long value)
  | _ => none

/-- Whether an argument can be the value of the option before it. -/
def isValue (argument : String) : Bool :=
  match argument.toList with
  | '-' :: _ :: _ => false
  | _ => true

/-- Reads the arguments of a command. -/
def scan (specs : List OptionSpec) : List String → Option Arguments
  | [] => some ⟨[], false⟩
  | ["--"] => some ⟨[], false⟩
  | [argument] =>
    match word? specs argument with
    | some .compact => some ⟨[], true⟩
    | some (.option long (some value)) => some ⟨[(long, value)], false⟩
    | _ => none
  | argument :: next :: rest =>
    match word? specs argument with
    | some .compact =>
      (scan specs (next :: rest)).bind fun a =>
        if a.compact then none else some { a with compact := true }
    | some (.option long (some value)) =>
      (scan specs (next :: rest)).map fun a => { a with values := (long, value) :: a.values }
    | some (.option long none) =>
      if isValue next then
        (scan specs rest).map fun a => { a with values := (long, next) :: a.values }
      else none
    | none => none

/-- Whether every option that is no list is given once at most. -/
def isSingle (specs : List OptionSpec) (a : Arguments) : Bool :=
  specs.all fun spec =>
    spec.isList || decide ((a.values.filter fun value => value.1 == spec.long).length ≤ 1)

/-- The values of an option. -/
def all (a : Arguments) (long : String) : List String :=
  (a.values.filter fun value => value.1 == long).map Prod.snd

/-- The value of an option. -/
def get? (a : Arguments) (long : String) : Option String := (a.all long).head?

/-- The value of an option that names a file and so must not be empty; none if it is. -/
def file? (a : Arguments) (long : String) : Option (Option String) :=
  match a.get? long with
  | some "" => none
  | value => some value

/-- A number of 64 bits in decimal digits, which a plus sign may precede. -/
def number? (text : String) : Option Nat :=
  let digits :=
    match text.toList with
    | '+' :: ds => ds
    | ds => ds
  if digits.isEmpty || !digits.all Char.isDigit then none
  else
    let n := digits.foldl (fun n d => n * 10 + (d.toNat - '0'.toNat)) 0
    if n < Word.limit64 then some n else none

/-- The value of an option that is a number; none if it is not. -/
def numberOf? (a : Arguments) (long : String) : Option (Option Nat) :=
  match a.get? long with
  | some text => (number? text).map some
  | none => some none

end Arguments

end RecordGuard.CommandLine
