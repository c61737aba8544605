import InfixArithmetic.Proofs.Arithmetic.Finite
import InfixArithmetic.Proofs.Decimal.Interval
import Mathlib

/-!
# The size of a double

A finite double other than zero is unpacked into a sign and a size, and the size is in the one
form that a double has (`Magnitude.isCanonical_of_unpack`): a normal number has the leading bit
of its mantissa set, and all others have the least exponent.
-/

namespace InfixArithmetic

set_option autoImplicit false

open Float.Model (UnpackedFloat Format)
open Float.Model.UnpackedFloat (unpack unpackExponent unpackMantissa)

/-- The leading bit of a normal number, before the bits that are stored. -/
theorem toNat_leadingBit_append (stored : BitVec 52) :
    (1#1 ++ stored).toNat = 2 ^ 52 + stored.toNat := by
  rw [BitVec.toNat_append, Nat.shiftLeft_eq, ← Nat.shiftLeft_eq,
    ← Nat.shiftLeft_add_eq_or_of_lt stored.isLt, Nat.shiftLeft_eq]
  rfl

/-- **A double is unpacked into a canonical size.** -/
theorem Magnitude.isCanonical_of_unpack {number : Float} {sign : UnpackedFloat.Sign}
    {mantissa : Nat} {exponent : Int} {positive : 0 < mantissa}
    (unpacked : number.toModel.unpack = .finite sign mantissa exponent positive) :
    Magnitude.IsCanonical ⟨mantissa, exponent⟩ := by
  change unpack Format.binary64 number.toModel.toBits.toBitVec = _ at unpacked
  generalize number.toModel.toBits.toBitVec = bits at unpacked
  have bias : (Format.binary64.exponentBias : Int) = 1023 := by decide
  have stored : (@unpackMantissa Format.binary64 bits).toNat < 2 ^ 52 := BitVec.isLt _
  have biased : (@unpackExponent Format.binary64 bits).toNat < 2 ^ 11 := BitVec.isLt _
  simp only [unpack, bias] at unpacked
  split at unpacked
  · split at unpacked <;> cases unpacked
  · rename_i notSpecial
    split at unpacked
    · rename_i least
      split at unpacked
      · cases unpacked
      · cases unpacked
        have leastExponent : ((0 : BitVec 11).toNat : Int) - (1023 + (52 : Nat)) + 1 = -1074 := rfl
        rw [least]
        exact ⟨positive, stored.trans (by decide), leastExponent.ge,
          leastExponent.le.trans (by decide), .inr leastExponent⟩
    · rename_i notLeast
      cases unpacked
      have more : (@unpackExponent Format.binary64 bits).toNat ≠ 0 := fun same =>
        notLeast (BitVec.eq_of_toNat_eq same)
      have fewer : (@unpackExponent Format.binary64 bits).toNat ≠ 2 ^ 11 - 1 := fun same =>
        notSpecial (BitVec.eq_of_toNat_eq same)
      have leading := toNat_leadingBit_append (@unpackMantissa Format.binary64 bits)
      constructor <;> simp only [leading] <;> omega

end InfixArithmetic
