import RecordGuard.Decimal.Shortest
import RecordGuard.Json.Double
import RecordGuard.Word

/-!
# JSON numbers

A number is an integer of 64 bits, signed or unsigned, or a finite double. The two kinds are
different values even where they denote the same number (`5` and `5.0`), but they are ordered by
what they denote: exactly when both are signed integers of 64 bits, and as doubles otherwise.
-/

namespace RecordGuard.Json

/-- A JSON number. -/
inductive Number where
  | integer (n : Int)
  | double (d : Double)
  deriving DecidableEq

namespace Number

/-- The integers that a signed word of 64 bits holds. -/
def isInt64 (n : Int) : Bool := decide (-(Word.half64 : Int) ≤ n ∧ n < Word.half64)

/-- The integers that are kept as integers. -/
def isInteger (n : Int) : Bool := decide (-(Word.half64 : Int) ≤ n ∧ n < Word.limit64)

/-- The number as a signed integer of 64 bits, if it is one. -/
def toInt64? : Number → Option Int
  | .integer n => if isInt64 n then some n else none
  | .double _ => none

/-- The number as a natural number, if it is a non-negative integer. -/
def toNat? : Number → Option Nat
  | .integer n => if 0 ≤ n then some n.toNat else none
  | .double _ => none

/-- The number as a double, the nearest one. -/
def toDouble : Number → Double
  | .integer n => .ofInt n
  | .double d => d

/-- The order of two numbers. -/
protected def compare (a b : Number) : Ordering :=
  match a.toInt64?, b.toInt64? with
  | some x, some y => Ord.compare x y
  | _, _ => a.toDouble.compare b.toDouble

/-- The same JSON value: integers by what they are, doubles by what they denote. -/
protected def beq : Number → Number → Bool
  | .integer m, .integer n => m == n
  | .double c, .double d => c.compare d == .eq
  | _, _ => false

instance : BEq Number := ⟨Number.beq⟩

/-- Doubles are positional from `0.00001` up to sixteen places before the point; otherwise they
carry a signed power of ten. -/
def doubleStyle : Decimal.Style where
  maxWhole := 16
  maxLeadingZeros := 4
  exponentMark := ['e', '+']

/-- The fewest digits that denote a double, with the sign in front. -/
def doubleText (d : Double) : List Char :=
  let magnitude :=
    if d.isZero then ['0', '.', '0']
    else
      let narrow := d.significand == Double.minSignificand
        && decide (Double.minExponent < d.exponent)
      doubleStyle.render (Decimal.shortest d.significand d.exponent narrow)
  if d.negative then '-' :: magnitude else magnitude

/-- An integer in decimal digits. -/
def integerText (n : Int) : List Char :=
  let digits := Nat.toDigits 10 n.natAbs
  if n < 0 then '-' :: digits else digits

/-- The text of a number. -/
def text : Number → List Char
  | .integer n => integerText n
  | .double d => doubleText d

end Number

end RecordGuard.Json
