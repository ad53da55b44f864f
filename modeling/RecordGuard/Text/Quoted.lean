import RecordGuard.Text.Invisible

/-!
# Quoted text

Two ways to write text between double quotes. `json` is the form of JSON strings: a quote, a
backslash and every control character below U+0020 are escaped, all else stands for itself.
`display` is the form used in messages about a piece of text: every character without a shape of
its own is escaped, by its number in braces where there is no short escape.
-/

namespace RecordGuard.Text.Quoted

/-- A digit below sixteen, in lower case. -/
def hexDigit (n : Nat) : Char := (Nat.digitChar n)

/-- The escape of a character in a JSON string. -/
def jsonChar (c : Char) : List Char :=
  if c = '"' then ['\\', '"']
  else if c = '\\' then ['\\', '\\']
  else if c = '\n' then ['\\', 'n']
  else if c = '\r' then ['\\', 'r']
  else if c = '\t' then ['\\', 't']
  else if c = '\x08' then ['\\', 'b']
  else if c = '\x0c' then ['\\', 'f']
  else if c.toNat < 0x20 then
    ['\\', 'u', '0', '0', hexDigit (c.toNat / 16), hexDigit (c.toNat % 16)]
  else [c]

/-- Text as a JSON string, with its quotes. -/
def json (cs : List Char) : List Char :=
  '"' :: (cs.flatMap jsonChar ++ ['"'])

/-- The escape of a character in a message. -/
def displayChar (c : Char) : List Char :=
  if c = '"' then ['\\', '"']
  else if c = '\\' then ['\\', '\\']
  else if c = '\n' then ['\\', 'n']
  else if c = '\r' then ['\\', 'r']
  else if c = '\t' then ['\\', 't']
  else if c = '\x00' then ['\\', '0']
  else if isInvisible c then
    ['\\', 'u', '{'] ++ Nat.toDigits 16 c.toNat ++ ['}']
  else [c]

/-- Text in a message, with its quotes. -/
def display (cs : List Char) : List Char :=
  '"' :: (cs.flatMap displayChar ++ ['"'])

end RecordGuard.Text.Quoted
