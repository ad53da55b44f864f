/-!
# The shortest decimal of a double

Every real number in an interval around `significand * 2 ^ exponent` rounds to it. The shortest
decimal is the one on the coarsest decimal grid that has a point in this interval; of two such
points it is the nearer one, and of two equally near ones the even one.

The interval is measured in quarters of `2 ^ exponent`. Below, it ends half way to the next double,
which is nearer when the significand is the smallest of its binade. Both ends belong to it when the
significand is even, because ties round to even.
-/

namespace RecordGuard.Decimal

/-- The number `digits * 10 ^ exponent`. -/
structure Numeral where
  digits : Nat
  exponent : Int
  deriving DecidableEq

/-- The interval of reals that round to one double, in units of `2 ^ unit`. -/
structure Interval where
  low : Nat
  value : Nat
  high : Nat
  unit : Int
  closed : Bool

/-- The interval around `significand * 2 ^ exponent`; `narrow` says that the next smaller double is
only half as far away as the next larger one. -/
def Interval.around (significand : Nat) (exponent : Int) (narrow : Bool) : Interval where
  low := 4 * significand - (if narrow then 1 else 2)
  value := 4 * significand
  high := 4 * significand + 2
  unit := exponent - 2
  closed := significand % 2 == 0

/-- The factors that turn `n * 10 ^ grid` and `x * 2 ^ unit` into integers of one scale. -/
def scales (unit grid : Int) : Nat × Nat :=
  (Nat.pow 10 grid.toNat * Nat.pow 2 (-unit).toNat, Nat.pow 2 unit.toNat * Nat.pow 10 (-grid).toNat)

/-- Whether the point `n * 10 ^ grid` lies in the interval. -/
def Interval.holds (i : Interval) (grid : Int) (n : Nat) : Bool :=
  let (ten, two) := scales i.unit grid
  let point := n * ten
  if i.closed then decide (i.low * two ≤ point ∧ point ≤ i.high * two)
  else decide (i.low * two < point ∧ point < i.high * two)

/-- The point of the grid in the interval that is nearest to the value, if there is one. -/
def Interval.onGrid? (i : Interval) (grid : Int) : Option Nat :=
  let (ten, two) := scales i.unit grid
  let below := i.value * two / ten
  let past := i.value * two - below * ten
  let short := (below + 1) * ten - i.value * two
  match i.holds grid below && below != 0, i.holds grid (below + 1) with
  | true, true =>
    if past < short then some below
    else if short < past then some (below + 1)
    else some (if below % 2 = 0 then below else below + 1)
  | true, false => some below
  | false, true => some (below + 1)
  | false, false => none

/-- The first hit on grids that get finer by one digit each. Without one it is a power of ten. -/
def Interval.search (i : Interval) : Nat → Int → Numeral
  | 0, grid => ⟨1, grid⟩
  | fuel + 1, grid =>
    match i.onGrid? grid with
    | some n => ⟨n, grid⟩
    | none => i.search fuel (grid - 1)

/-- A power of ten above `significand * 2 ^ exponent`, by its exponent. -/
def gridAbove (significand : Nat) (exponent : Int) : Int :=
  (((significand.log2 : Int) + 1 + exponent) * 30103).fdiv 100000 + 2

/-- Drops trailing zeros, of which there are at most `fuel`. -/
def Numeral.trim : Nat → Numeral → Numeral
  | 0, d => d
  | fuel + 1, d =>
    if d.digits % 10 = 0 ∧ d.digits ≠ 0 then trim fuel ⟨d.digits / 10, d.exponent + 1⟩ else d

/-- More grids than lie between the first one and one finer than any interval. -/
def searchLimit : Nat := 40

/-- The shortest decimal that rounds to `significand * 2 ^ exponent`, which is not zero. -/
def shortest (significand : Nat) (exponent : Int) (narrow : Bool) : Numeral :=
  let i := Interval.around significand exponent narrow
  (i.search searchLimit (gridAbove significand exponent)).trim searchLimit

/-- How a decimal is written. -/
structure Style where
  /-- The greatest number of places before the point in positional writing. -/
  maxWhole : Int
  /-- The greatest number of zeros that stand between the point and the first digit. -/
  maxLeadingZeros : Int
  /-- What stands between the digits and a positive power of ten. -/
  exponentMark : List Char

/-- Writes a decimal, always with a point or a power of ten. -/
def Style.render (style : Style) (d : Numeral) : List Char :=
  let digits := Nat.toDigits 10 d.digits
  let whole : Int := digits.length + d.exponent
  if 0 ≤ d.exponent ∧ whole ≤ style.maxWhole then
    digits ++ List.replicate d.exponent.toNat '0' ++ ['.', '0']
  else if 0 < whole ∧ whole ≤ style.maxWhole then
    digits.take whole.toNat ++ '.' :: digits.drop whole.toNat
  else if -style.maxLeadingZeros ≤ whole ∧ whole ≤ 0 then
    '0' :: '.' :: List.replicate (-whole).toNat '0' ++ digits
  else
    let power := whole - 1
    let mantissa :=
      match digits with
      | first :: second :: rest => first :: '.' :: second :: rest
      | few => few
    mantissa ++ (if 0 ≤ power then style.exponentMark else ['e', '-']) ++
      Nat.toDigits 10 power.natAbs

end RecordGuard.Decimal
