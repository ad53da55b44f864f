/-!
# LIKE patterns

A pattern stands for a set of texts: `%` for any run of characters, `_` for one character, a
backslash and a character for this character, and everything else for itself. A backslash at the
end of a pattern has nothing to stand for, so such a pattern matches no text.

`escape` writes a text as the pattern that matches it alone.
-/

namespace RecordGuard.Like

/-- Whether some suffix of the text, the whole and the empty one included, has the property. -/
def someSuffix (p : List Char → Bool) : List Char → Bool
  | [] => p []
  | c :: cs => p (c :: cs) || someSuffix p cs

/-- Whether a text starts with a character and the rest has the property. -/
def afterChar (expected : Char → Bool) (p : List Char → Bool) : List Char → Bool
  | [] => false
  | c :: cs => expected c && p cs

/-- Whether a pattern matches a text. -/
def isMatch : List Char → List Char → Bool
  | [], text => text.isEmpty
  | ['\\'], _ => false
  | '\\' :: c :: pattern, text => afterChar (· == c) (isMatch pattern) text
  | '%' :: pattern, text => someSuffix (isMatch pattern) text
  | '_' :: pattern, text => afterChar (fun _ => true) (isMatch pattern) text
  | c :: pattern, text => afterChar (· == c) (isMatch pattern) text

/-- The characters that mean something other than themselves in a pattern. -/
def isSpecial (c : Char) : Bool := c == '\\' || c == '%' || c == '_'

/-- The pattern that matches only the given text. -/
def escape (text : List Char) : List Char :=
  text.flatMap fun c => if isSpecial c then ['\\', c] else [c]

end RecordGuard.Like
