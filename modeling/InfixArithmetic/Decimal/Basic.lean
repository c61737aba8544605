/-!
# Decimal numbers and their digits

A number is written as a whole coefficient and a power of ten.  The coefficient
is a natural number, so a decimal has exactly one value and many spellings: a
zero at the end of the coefficient can always be moved into the exponent.
`Decimal.trimmed` moves all of them, and the value does not change.
-/

namespace InfixArithmetic

set_option autoImplicit false

/-- The decimal number `coefficient · 10 ^ exponent`. -/
structure Decimal where
  coefficient : Nat
  exponent : Int
  deriving DecidableEq

namespace Decimal

/-! ## Value -/

/-- The exact value of a decimal number. -/
def value (number : Decimal) : Rat :=
  (number.coefficient : Rat) * (10 : Rat) ^ number.exponent

/-! ## Digits -/

/-- The decimal digits of a natural number, the leading one first. -/
def digits (number : Nat) : List Char :=
  Nat.toDigits 10 number

/-- How many zeros a number ends in, counted on its digits. -/
def trailingZeros (number : Nat) : Nat :=
  ((digits number).reverse.takeWhile (· = '0')).length

/-- The same number with the zeros at the end of its coefficient moved into the
exponent. -/
def trimmed (number : Decimal) : Decimal where
  coefficient := number.coefficient / Nat.pow 10 (trailingZeros number.coefficient)
  exponent := number.exponent + trailingZeros number.coefficient

/-- The exponent of the leading digit: the number is at least `10` to this power
and less than `10` times that. -/
def leadingExponent (number : Decimal) : Int :=
  ((digits number.coefficient).length : Int) + number.exponent - 1

end Decimal

end InfixArithmetic
