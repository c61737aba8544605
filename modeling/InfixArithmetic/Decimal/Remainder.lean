/-!
# The exact remainder of two doubles

The remainder of a division whose quotient is cut off towards zero has the sign
of the dividend and is smaller than the divisor.  Written over one power of two
both numbers are whole, so their remainder is the remainder of two natural
numbers; it needs no more bits than the smaller operand has, and rounding it to
a double changes nothing.
-/

namespace InfixArithmetic

set_option autoImplicit false

open Float.Model (UnpackedFloat Format)

/-- The remainder of an exact division cut off towards zero.  It is not a number
when the dividend is infinite, the divisor is zero, or either is not a number; an
infinite divisor leaves the dividend as it is. -/
def remainder (dividend divisor : Float) : Float :=
  match dividend.toModel.unpack, divisor.toModel.unpack with
  | .notANumber, _ | _, .notANumber | .infinity _, _ | _, .zero _ =>
      .ofModel (.pack .notANumber)
  | .zero _, _ | _, .infinity _ => dividend
  | .finite sign mantissa exponent _, .finite _ mantissa' exponent' _ =>
      let common := min exponent exponent'
      let left := mantissa <<< (exponent - common).toNat
      let right := mantissa' <<< (exponent' - common).toNat
      .ofModel (.pack (UnpackedFloat.round Format.binary64 sign (left % right) common))

end InfixArithmetic
