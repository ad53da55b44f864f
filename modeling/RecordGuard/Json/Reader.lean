import RecordGuard.Json.Tree

/-!
# Reading JSON text

The reader follows the grammar of JSON: blanks between tokens, no leading zeros, no control
character inside a string, nothing after the value. It works on the list of characters and returns
with each part the characters that follow it.

Integers without point and exponent that fit 64 bits stay integers; every other number becomes a
double by `NumberText.value?`. Objects and arrays may be nested `maxDepth` deep.

`members` also reports what it has read of an object whose text breaks off, because a member can be
judged before the rest of the text is looked at.
-/

namespace RecordGuard.Json.Reader

/-- Blanks between tokens. -/
def isBlank (c : Char) : Bool := c == ' ' || c == '\n' || c == '\t' || c == '\r'

def skipBlanks (cs : List Char) : List Char := cs.dropWhile isBlank

/-! ## Strings -/

/-- A piece of a string: a character for itself or an escaped unit of UTF-16. -/
inductive Piece where
  | char (c : Char)
  | unit (n : Nat)

/-- The value of a hexadecimal digit. -/
def hexValue? (c : Char) : Option Nat :=
  if '0' ≤ c ∧ c ≤ '9' then some (c.toNat - '0'.toNat)
  else if 'a' ≤ c ∧ c ≤ 'f' then some (c.toNat - 'a'.toNat + 10)
  else if 'A' ≤ c ∧ c ≤ 'F' then some (c.toNat - 'A'.toNat + 10)
  else none

/-- The value of four hexadecimal digits. -/
def hexUnit? (a b c d : Char) : Option Nat := do
  return (((← hexValue? a) * 16 + (← hexValue? b)) * 16 + (← hexValue? c)) * 16 + (← hexValue? d)

/-- The character of a one-letter escape. -/
def escaped? (c : Char) : Option Char :=
  if c = '"' ∨ c = '\\' ∨ c = '/' then some c
  else if c = 'b' then some '\x08'
  else if c = 'f' then some '\x0c'
  else if c = 'n' then some '\n'
  else if c = 'r' then some '\r'
  else if c = 't' then some '\t'
  else none

/-- The pieces of a string up to its closing quote. -/
def pieces : List Char → Option (List Piece × List Char)
  | [] => none
  | '"' :: rest => some ([], rest)
  | '\\' :: 'u' :: a :: b :: c :: d :: rest => do
    let unit ← hexUnit? a b c d
    let (ps, rest) ← pieces rest
    return (.unit unit :: ps, rest)
  | '\\' :: e :: rest => do
    let c ← escaped? e
    let (ps, rest) ← pieces rest
    return (.char c :: ps, rest)
  | c :: rest =>
    if c.toNat < 0x20 then none
    else do
      let (ps, rest) ← pieces rest
      return (.char c :: ps, rest)

def isHighSurrogate (n : Nat) : Bool := decide (0xD800 ≤ n ∧ n < 0xDC00)

def isLowSurrogate (n : Nat) : Bool := decide (0xDC00 ≤ n ∧ n < 0xE000)

/-- The text of the pieces; none when half a surrogate pair stands alone. -/
def join : List Piece → Option (List Char)
  | [] => some []
  | .char c :: ps => (join ps).map (c :: ·)
  | .unit n :: .unit m :: ps =>
    if isHighSurrogate n then
      if isLowSurrogate m then
        (join ps).map (Char.ofNat (0x10000 + (n - 0xD800) * 0x400 + (m - 0xDC00)) :: ·)
      else none
    else if isLowSurrogate n then none
    else (join (.unit m :: ps)).map (Char.ofNat n :: ·)
  | .unit n :: ps =>
    if isHighSurrogate n || isLowSurrogate n then none
    else (join ps).map (Char.ofNat n :: ·)

/-- A string after its opening quote; its text may be missing. -/
def string (cs : List Char) : Option (Option String × List Char) := do
  let (ps, rest) ← pieces cs
  return ((join ps).map String.ofList, rest)

/-! ## Numbers -/

/-- The parts of a number as written. -/
structure NumberText where
  negative : Bool
  whole : List Char
  fraction : Option (List Char)
  /-- The sign and the digits of the power of ten. -/
  power : Option (Bool × List Char)

def isDigit (c : Char) : Bool := decide ('0' ≤ c ∧ c ≤ '9')

/-- The digits at the front, of which there is at least one. -/
def digits (cs : List Char) : Option (List Char × List Char) :=
  match cs.takeWhile isDigit with
  | [] => none
  | ds => some (ds, cs.dropWhile isDigit)

/-- The whole part, where a zero stands alone. -/
def wholePart (cs : List Char) : Option (List Char × List Char) := do
  let (ds, rest) ← digits cs
  match ds with
  | '0' :: _ :: _ => none
  | _ => some (ds, rest)

/-- The fraction, if a point follows. -/
def fractionPart : List Char → Option (Option (List Char) × List Char)
  | '.' :: rest => (digits rest).map fun (ds, rest) => (some ds, rest)
  | cs => some (none, cs)

/-- The sign of a power of ten; true is negative. -/
def powerSign : List Char → Bool × List Char
  | '-' :: rest => (true, rest)
  | '+' :: rest => (false, rest)
  | cs => (false, cs)

/-- The power of ten, if a mark for it follows. -/
def powerPart (cs : List Char) : Option (Option (Bool × List Char) × List Char) :=
  let power (rest : List Char) :=
    let (negative, rest) := powerSign rest
    (digits rest).map fun (ds, rest) => (some (negative, ds), rest)
  match cs with
  | 'e' :: rest => power rest
  | 'E' :: rest => power rest
  | cs => some (none, cs)

/-- The number at the front. -/
def numberText (cs : List Char) : Option (NumberText × List Char) := do
  let (negative, cs) :=
    match cs with
    | '-' :: rest => (true, rest)
    | cs => (false, cs)
  let (whole, cs) ← wholePart cs
  let (fraction, cs) ← fractionPart cs
  let (power, cs) ← powerPart cs
  return (⟨negative, whole, fraction, power⟩, cs)

def digitValue (c : Char) : Nat := c.toNat - '0'.toNat

/-- Appends digits to a number as long as it stays at most `limit`; the digits left over follow. -/
def absorb (limit : Nat) : Nat → List Char → Nat × List Char
  | n, [] => (n, [])
  | n, d :: ds =>
    if n * 10 + digitValue d ≤ limit then absorb limit (n * 10 + digitValue d) ds
    else (n, d :: ds)

/-- The largest significand that is taken in. -/
def maxSignificand : Nat := Word.limit64 - 1

/-- The largest power of ten that is taken in. -/
def maxPower : Nat := Word.limit32 / 2 - 1

/-- An integer that fits 64 bits, else the nearest double; a negative zero is a double. -/
def integral (negative : Bool) (n : Nat) : Number :=
  if negative then
    if n = 0 then .double (.zero true)
    else if n ≤ Word.half64 then .integer (-n)
    else .double (.ofInt (-n))
  else .integer n

/-- The number that is written. The significand takes digits as long as it fits 64 bits: of the
whole part, further digits count as powers of ten; of the fraction, they are ignored. -/
def NumberText.value? (t : NumberText) : Option Number :=
  let (significand, wholeRest) := absorb maxSignificand 0 t.whole
  let double (significand : Nat) (exponent : Int) : Option Number :=
    (Double.ofDecimal t.negative significand exponent).map .double
  let withPower (significand : Nat) (exponent : Int) : Option Number :=
    match t.power with
    | none => double significand exponent
    | some (negative, ds) =>
      let (power, rest) := absorb maxPower 0 ds
      if rest ≠ [] then
        if significand ≠ 0 ∧ ¬negative then none else some (.double (.zero t.negative))
      else
        let sum := if negative then exponent - power else exponent + power
        double significand (max (-(maxPower + 1 : Int)) (min maxPower sum))
  match t.fraction with
  | some ds =>
    let (significand, rest) := absorb maxSignificand significand ds
    withPower significand (wholeRest.length - (ds.length - rest.length : Nat))
  | none =>
    if wholeRest = [] ∧ t.power.isNone then some (integral t.negative significand)
    else withPower significand wholeRest.length

/-- A number, unreadable if it is too large for a double. -/
def number (cs : List Char) : Option (Tree × List Char) := do
  let (t, rest) ← numberText cs
  return ((t.value?.map Tree.number).getD .unreadable, rest)

/-! ## Values -/

/-- How deep containers may be nested. -/
def maxDepth : Nat := 127

/-- The members of an object as far as they could be read, and what follows its closing brace
unless the text breaks off. The text of a key may be missing. -/
structure Members where
  found : List (Option String × Tree)
  rest : Option (List Char)

/-- The tree of an object: unreadable if one of its keys is. -/
def objectTree (members : List (Option String × Tree)) : Tree :=
  match members.mapM fun (key, t) => key.map (·, t) with
  | some members => .object members
  | none => .unreadable

mutual

/-- The value at the front, after blanks. `depth` is how many containers may still be opened. -/
def value : Nat → Nat → List Char → Option (Tree × List Char)
  | 0, _, _ => none
  | fuel + 1, depth, cs =>
    match skipBlanks cs with
    | 'n' :: 'u' :: 'l' :: 'l' :: rest => some (.null, rest)
    | 't' :: 'r' :: 'u' :: 'e' :: rest => some (.bool true, rest)
    | 'f' :: 'a' :: 'l' :: 's' :: 'e' :: rest => some (.bool false, rest)
    | '"' :: rest => do
      let (text, rest) ← string rest
      return ((text.map Tree.string).getD .unreadable, rest)
    | '[' :: rest => do
      let (items, rest) ← items fuel (depth - 1) rest
      return (if depth = 0 then .unreadable else .array items, rest)
    | '{' :: rest => do
      let members := members fuel (depth - 1) rest
      let rest ← members.rest
      return (if depth = 0 then .unreadable else objectTree members.found, rest)
    | cs => number cs
termination_by structural fuel => fuel

/-- The items of an array after its opening bracket. -/
def items : Nat → Nat → List Char → Option (List Tree × List Char)
  | 0, _, _ => none
  | fuel + 1, depth, cs =>
    match skipBlanks cs with
    | ']' :: rest => some ([], rest)
    | cs => moreItems fuel depth cs
termination_by structural fuel => fuel

/-- An item and the items after it. -/
def moreItems : Nat → Nat → List Char → Option (List Tree × List Char)
  | 0, _, _ => none
  | fuel + 1, depth, cs => do
    let (item, rest) ← value fuel depth cs
    match skipBlanks rest with
    | ']' :: rest => some ([item], rest)
    | ',' :: rest =>
      let (items, rest) ← moreItems fuel depth rest
      some (item :: items, rest)
    | _ => none
termination_by structural fuel => fuel

/-- The members of an object after its opening brace. -/
def members : Nat → Nat → List Char → Members
  | 0, _, _ => ⟨[], none⟩
  | fuel + 1, depth, cs =>
    match skipBlanks cs with
    | '}' :: rest => ⟨[], some rest⟩
    | cs => moreMembers fuel depth cs
termination_by structural fuel => fuel

/-- A member and the members after it. -/
def moreMembers : Nat → Nat → List Char → Members
  | 0, _, _ => ⟨[], none⟩
  | fuel + 1, depth, cs =>
    match member fuel depth cs with
    | none => ⟨[], none⟩
    | some (key, item, rest) =>
      match skipBlanks rest with
      | '}' :: rest => ⟨[(key, item)], some rest⟩
      | ',' :: rest =>
        let more := moreMembers fuel depth rest
        ⟨(key, item) :: more.found, more.rest⟩
      | _ => ⟨[(key, item)], none⟩
termination_by structural fuel => fuel

/-- A key, a colon and a value. -/
def member : Nat → Nat → List Char → Option (Option String × Tree × List Char)
  | 0, _, _ => none
  | fuel + 1, depth, cs =>
    match skipBlanks cs with
    | '"' :: rest => do
      let (key, rest) ← string rest
      match skipBlanks rest with
      | ':' :: rest =>
        let (item, rest) ← value fuel depth rest
        some (key, item, rest)
      | _ => none
    | _ => none
termination_by structural fuel => fuel

end

/-- Enough steps for any text: a value opens with a character of its own and costs at most four
steps. -/
def steps (cs : List Char) : Nat := 4 * cs.length + 4

/-- The value at the front of a text, and what follows it. -/
def first (cs : List Char) : Option (Tree × List Char) :=
  value (steps cs) maxDepth cs

/-- Whether nothing but blanks is left. -/
def isEnd (cs : List Char) : Bool := (skipBlanks cs).isEmpty

end RecordGuard.Json.Reader

namespace RecordGuard.Json

/-- The tree of a JSON text. -/
def Tree.read? (text : String) : Option Tree :=
  match Reader.first text.toList with
  | some (t, rest) => if Reader.isEnd rest then some t else none
  | none => none

/-- The document value of a JSON text. -/
def Value.read? (text : String) : Option Value :=
  (Tree.read? text).bind Tree.value?

end RecordGuard.Json
