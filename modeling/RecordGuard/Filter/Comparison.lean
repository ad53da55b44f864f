import RecordGuard.Json.Value

/-!
# Comparing values

Numbers are compared by what they denote, text by code point, and false comes before true. Values
of two kinds, nulls, arrays and objects have no order. `isEqual` is the equality that filters use:
the same value, or numbers that denote the same.
-/

namespace RecordGuard.Json.Value

/-- The order of two values, if they have one. -/
def order? : Value → Value → Option Ordering
  | .number a, .number b => some (a.compare b)
  | .string a, .string b => some (compare a b)
  | .bool a, .bool b => some (compare a b)
  | _, _ => none

/-- Whether two values are equal, with numbers compared by what they denote. -/
def isEqual : Value → Value → Bool
  | .number a, .number b => a.compare b == .eq
  | a, b => a.same b

end RecordGuard.Json.Value
