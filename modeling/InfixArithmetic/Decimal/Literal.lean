/-!
# Reading a decimal literal

A literal is a run of digits with at most one point in it and at least one
digit; `.5` and `5.` are literals and a lone point is not.  Its value is the
double nearest to the number written.  A literal whose number is beyond the
largest finite double is well formed and has no value.
-/

namespace InfixArithmetic

set_option autoImplicit false

namespace Literal

/-- Digits and the decimal point: the characters a literal is made of. -/
def isNumeral (character : Char) : Bool :=
  character.isDigit || character = '.'

/-- The number that a list of digits stands for. -/
def digitsValue (digits : List Char) : Nat :=
  digits.foldl (fun value digit => 10 * value + (digit.toNat - 48)) 0

/-- The digits before the first point. -/
def whole (run : List Char) : List Char :=
  run.takeWhile (· ≠ '.')

/-- What stands behind the first point. -/
def fraction (run : List Char) : List Char :=
  (run.dropWhile (· ≠ '.')).drop 1

/-- Whether a run is a literal: apart from one point it holds digits only, and at
least one of them. -/
def isWellFormed (run : List Char) : Bool :=
  let digits := whole run ++ fraction run
  !digits.isEmpty && digits.all Char.isDigit

/-- The double nearest to the number that a literal writes, infinite when the
number is too large. -/
def nearest (run : List Char) : Float :=
  Float.ofScientific (digitsValue (whole run ++ fraction run)) true (fraction run).length

/-- Why a run of digits and points has no value. -/
inductive Fault where
  /-- It has no digit, or more than one point. -/
  | malformed
  /-- Its number is beyond the largest finite double. -/
  | tooLarge
  deriving DecidableEq

/-- The value of a run of digits and points. -/
def read (run : List Char) : Except Fault Float :=
  if isWellFormed run then
    let value := nearest run
    if value.isFinite then .ok value else .error .tooLarge
  else
    .error .malformed

end Literal

end InfixArithmetic
