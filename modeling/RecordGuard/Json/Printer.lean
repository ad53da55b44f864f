import RecordGuard.Json.Value
import RecordGuard.Text.Quoted

/-!
# JSON text of a value

`compact` writes a value without any blank. `pretty` gives every item and member a line of its own,
indented by two blanks for each container around it, and writes an empty container without a line.
Both keep the order of the members.
-/

namespace RecordGuard.Json.Value

mutual

/-- The characters of a value without blanks. -/
def compactChars : Value → List Char
  | .null => ['n', 'u', 'l', 'l']
  | .bool true => ['t', 'r', 'u', 'e']
  | .bool false => ['f', 'a', 'l', 's', 'e']
  | .number n => n.text
  | .string s => Text.Quoted.json s.toList
  | .array items => '[' :: (compactItems items ++ [']'])
  | .object members => '{' :: (compactMembers members ++ ['}'])
termination_by structural v => v

/-- Items, separated by commas. -/
def compactItems : List Value → List Char
  | [] => []
  | [v] => compactChars v
  | v :: w :: vs => compactChars v ++ ',' :: compactItems (w :: vs)
termination_by structural vs => vs

/-- Members, separated by commas. -/
def compactMembers : List (String × Value) → List Char
  | [] => []
  | [(k, v)] => Text.Quoted.json k.toList ++ ':' :: compactChars v
  | (k, v) :: m :: ms =>
    Text.Quoted.json k.toList ++ ':' :: compactChars v ++ ',' :: compactMembers (m :: ms)
termination_by structural ms => ms

end

/-- A new line and the blanks of its depth. -/
def newLine (depth : Nat) : List Char :=
  '\n' :: List.replicate (2 * depth) ' '

mutual

/-- The characters of a value whose container is `depth` containers deep. -/
def prettyChars (depth : Nat) : Value → List Char
  | .array [] => ['[', ']']
  | .array (v :: vs) =>
    '[' :: (prettyItems (depth + 1) (v :: vs) ++ newLine depth ++ [']'])
  | .object [] => ['{', '}']
  | .object (m :: ms) =>
    '{' :: (prettyMembers (depth + 1) (m :: ms) ++ newLine depth ++ ['}'])
  | .null => compactChars .null
  | .bool b => compactChars (.bool b)
  | .number n => n.text
  | .string s => Text.Quoted.json s.toList
termination_by structural v => v

/-- Items, each on its line. -/
def prettyItems (depth : Nat) : List Value → List Char
  | [] => []
  | [v] => newLine depth ++ prettyChars depth v
  | v :: w :: vs => newLine depth ++ prettyChars depth v ++ ',' :: prettyItems depth (w :: vs)
termination_by structural vs => vs

/-- Members, each on its line. -/
def prettyMembers (depth : Nat) : List (String × Value) → List Char
  | [] => []
  | [(k, v)] => newLine depth ++ Text.Quoted.json k.toList ++ ':' :: ' ' :: prettyChars depth v
  | (k, v) :: m :: ms =>
    newLine depth ++ Text.Quoted.json k.toList ++ ':' :: ' ' :: prettyChars depth v ++
      ',' :: prettyMembers depth (m :: ms)
termination_by structural ms => ms

end

/-- The text of a value without blanks. -/
def compact (v : Value) : String := String.ofList v.compactChars

/-- The text of a value on indented lines. -/
def pretty (v : Value) : String := String.ofList (v.prettyChars 0)

end RecordGuard.Json.Value
