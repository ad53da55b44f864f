/-!
# Finite doubles

A finite double of 64 bits is kept as what it denotes: a sign and the magnitude
`significand * 2 ^ exponent`. Rounding goes to the nearest double, a tie to the even significand,
and is exact arithmetic on natural numbers. A result whose exponent is above `maxExponent` is too
large to be a finite double; `isFinite` tells.
-/

namespace RecordGuard.Json

/-- A double by sign and magnitude `significand * 2 ^ exponent`. -/
structure Double where
  negative : Bool
  significand : Nat
  exponent : Int
  deriving DecidableEq

namespace Double

/-- The exponent of the smallest doubles. -/
def minExponent : Int := -1074

/-- The exponent of the largest doubles. -/
def maxExponent : Int := 971

/-- The bits of a significand. -/
def precision : Nat := 53

/-- The smallest significand that uses all its bits. -/
def minSignificand : Nat := Nat.pow 2 (precision - 1)

/-- A zero of the given sign. -/
def zero (negative : Bool) : Double := ⟨negative, 0, minExponent⟩

def isZero (d : Double) : Bool := d.significand == 0

def isFinite (d : Double) : Bool := decide (d.exponent ≤ maxExponent)

/-- The integer nearest to `num / den`; of two, the even one. -/
def roundQuotient (num den : Nat) : Nat :=
  let q := num / den
  let r := num % den
  if 2 * r < den then q
  else if 2 * r = den then (if q % 2 = 0 then q else q + 1)
  else q + 1

/-- The integer nearest to `num / den * 2 ^ -exponent`. -/
def roundAt (num den : Nat) (exponent : Int) : Nat :=
  if 0 ≤ exponent then roundQuotient num (den * Nat.pow 2 exponent.toNat)
  else roundQuotient (num * Nat.pow 2 (-exponent).toNat) den

/-- The greatest power of two that is at most `num / den`, by its exponent. -/
def floorLog2 (num den : Nat) : Int :=
  let k : Int := (num.log2 : Int) - (den.log2 : Int)
  let reaches : Bool :=
    if 0 ≤ k then decide (den * Nat.pow 2 k.toNat ≤ num)
    else decide (den ≤ num * Nat.pow 2 (-k).toNat)
  if reaches then k else k - 1

/-- The double nearest to `num / den`. -/
def nearest (negative : Bool) (num den : Nat) : Double :=
  if num = 0 then zero negative
  else
    let exponent := max (floorLog2 num den - (precision - 1 : Nat)) minExponent
    let significand := roundAt num den exponent
    if significand = 2 * minSignificand then ⟨negative, minSignificand, exponent + 1⟩
    else ⟨negative, significand, exponent⟩

/-- The double nearest to an integer. -/
def ofInt (n : Int) : Double := nearest (decide (n < 0)) n.natAbs 1

/-- The magnitude as a fraction. -/
def fraction (d : Double) : Nat × Nat :=
  if 0 ≤ d.exponent then (d.significand * Nat.pow 2 d.exponent.toNat, 1)
  else (d.significand, Nat.pow 2 (-d.exponent).toNat)

/-- The rounded product. -/
def mul (a b : Double) : Double :=
  nearest (a.negative != b.negative) (a.fraction.1 * b.fraction.1) (a.fraction.2 * b.fraction.2)

/-- The rounded quotient by a divisor that is not zero. -/
def div (a b : Double) : Double :=
  nearest (a.negative != b.negative) (a.fraction.1 * b.fraction.2) (a.fraction.2 * b.fraction.1)

/-- The signed significand over `2 ^ exponent`, for an exponent that is at most the double's own. -/
def scaled (d : Double) (exponent : Int) : Int :=
  let magnitude : Int := (d.significand * Nat.pow 2 (d.exponent - exponent).toNat : Nat)
  if d.negative then -magnitude else magnitude

/-- The order of the denoted values; both zeros are equal. -/
protected def compare (a b : Double) : Ordering :=
  let exponent := min a.exponent b.exponent
  Ord.compare (a.scaled exponent) (b.scaled exponent)

/-- The greatest power of ten that scales a decimal in one step. -/
def maxPowerOfTen : Nat := 308

/-- The double nearest to a power of ten. -/
def powerOfTen (n : Nat) : Double := nearest false (Nat.pow 10 n) 1

/-- Scales by a power of ten, dividing by the greatest one as often as is needed first. -/
def scaleByTen : Nat → Double → Int → Option Double
  | 0, _, _ => none
  | fuel + 1, d, exponent =>
    if exponent.natAbs ≤ maxPowerOfTen then
      let power := powerOfTen exponent.natAbs
      let scaled := if 0 ≤ exponent then d.mul power else d.div power
      if scaled.isFinite then some scaled else none
    else if d.isZero then some d
    else if 0 ≤ exponent then none
    else scaleByTen fuel (d.div (powerOfTen maxPowerOfTen)) (exponent + maxPowerOfTen)

/-- The double that the decimal `significand * 10 ^ exponent` is read as: the significand is
rounded first and the power of ten is then multiplied in or divided out, each step rounding.
There is none when the result is too large. -/
def ofDecimal (negative : Bool) (significand : Nat) (exponent : Int) : Option Double :=
  (scaleByTen (exponent.natAbs + 1) (ofInt significand) exponent).map
    fun d => { d with negative }

end Double

end RecordGuard.Json
