import InfixArithmetic.Decimal.Basic

/-!
# The shortest decimal that reads back

A positive finite double is a whole mantissa times a power of two, and the real
numbers that round to it form an interval around it.  Every decimal inside the
interval reads back as the same double, so the text of a number may be any of
them; the one chosen has the fewest digits, and among those it lies nearest.

The search goes through the grids of one, two, … seventeen digits.  On a grid
only the two neighbours of the value can be nearest, so a grid has an answer
exactly when one of them lies in the interval.  The first grid with an answer
wins.  Should no grid have one, the exact expansion of the value is taken, which
is a decimal because every power of two divides a power of ten.

**What holds of the result.**  Whichever way it was found, it lies in the
interval; `Magnitude.readsBack` is the test that the search itself applies.
-/

namespace InfixArithmetic

set_option autoImplicit false

/-- The positive number `mantissa · 2 ^ exponent`, the size of a finite double
other than zero. -/
structure Magnitude where
  mantissa : Nat
  exponent : Int
  deriving DecidableEq

namespace Magnitude

/-! ## The interval of numbers that round to a double -/

/-- The exact value of a magnitude. -/
def value (size : Magnitude) : Rat :=
  (size.mantissa : Rat) * (2 : Rat) ^ size.exponent

/-- Whether the next smaller double is only half as far away as the next larger
one, which happens at a power of two above the smallest spacing. -/
def isNarrowBelow (size : Magnitude) : Bool :=
  size.mantissa = 1 <<< 52 && -1074 < size.exponent

/-- The midpoint towards the next smaller double. -/
def lower (size : Magnitude) : Rat :=
  if size.isNarrowBelow then
    (4 * (size.mantissa : Rat) - 1) * (2 : Rat) ^ (size.exponent - 2)
  else
    (2 * (size.mantissa : Rat) - 1) * (2 : Rat) ^ (size.exponent - 1)

/-- The midpoint towards the next larger double. -/
def upper (size : Magnitude) : Rat :=
  (2 * (size.mantissa : Rat) + 1) * (2 : Rat) ^ (size.exponent - 1)

/-- Whether a number rounds to the double: it lies between the two midpoints,
and a midpoint itself belongs to the double whose mantissa is even. -/
def readsBack (size : Magnitude) (number : Rat) : Bool :=
  (size.lower < number && number < size.upper)
    || (size.mantissa % 2 == 0 && (number == size.lower || number == size.upper))

/-! ## The search -/

/-- The number of digits before the decimal point, not positive for a number
below one tenth: the value is at least `10` to one less than this, and less than
`10` to this. -/
def pointPosition (number : Rat) : Int :=
  if 1 ≤ number then
    (Decimal.digits number.floor.toNat).length
  else
    1 - ((Decimal.digits number⁻¹.floor.toNat).length : Int)

/-- The nearest multiple of `10 ^ exponent` that reads back, if there is one.  Of
two that are equally near the larger one is taken. -/
def onGrid (size : Magnitude) (exponent : Int) : Option Decimal :=
  let below := (size.value / (10 : Rat) ^ exponent).floor.toNat
  let lesser : Decimal := ⟨below, exponent⟩
  let greater : Decimal := ⟨below + 1, exponent⟩
  match size.readsBack lesser.value, size.readsBack greater.value with
  | true, true =>
      some (if size.value - lesser.value < greater.value - size.value then lesser else greater)
  | true, false => some lesser
  | false, true => some greater
  | false, false => none

/-- The value itself, written out in full. -/
def exactDecimal (size : Magnitude) : Decimal :=
  if 0 ≤ size.exponent then
    ⟨size.mantissa * Nat.pow 2 size.exponent.toNat, 0⟩
  else
    ⟨size.mantissa * Nat.pow 5 (-size.exponent).toNat, size.exponent⟩

/-- The decimal with the fewest digits that reads back, and of those the nearest,
without zeros at its end. -/
def shortest (size : Magnitude) : Decimal :=
  let point := pointPosition size.value
  let found := (List.range 17).findSome? fun count =>
    size.onGrid (point - (count + 1 : Nat))
  (found.getD size.exactDecimal).trimmed

end Magnitude

end InfixArithmetic
