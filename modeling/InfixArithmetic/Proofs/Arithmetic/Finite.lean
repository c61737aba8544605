import InfixArithmetic.Decimal.Literal
import InfixArithmetic.Proofs.OperandSide.Carries
import Mathlib

/-!
# Finite numbers

A literal and the result of a binary operator are checked to be finite.  A sign is not
checked, and need not be: a double is taken apart into a sign, an exponent and a mantissa,
and negation changes the sign and nothing else (`unpack_neg`), so it keeps a finite number
finite (`isFinite_neg`).  Finite numbers are what the name says, neither infinite nor
something that is not a number (`isNaN_isInf_of_isFinite`).
-/

namespace InfixArithmetic

set_option autoImplicit false

open Float.Model (UnpackedFloat Format)
open Float.Model.UnpackedFloat (unpack unpackSign unpackExponent unpackMantissa packComponents)

/-! ## Negation -/

/-- The bits of a number, with the other sign among them, are those of its negation. -/
theorem unpack_packComponents_neg {spec : Format} {bits : BitVec spec.numBits}
    (isNumber : unpackExponent bits = -1#(spec.exponentBits) →
      unpackMantissa bits = 0#(spec.mantissaBitsWithoutImplicit)) :
    unpack spec (packComponents spec (-.ofBitVec (unpackSign bits)) (unpackExponent bits)
        (unpackMantissa bits)) = (unpack spec bits).neg := by
  simp only [unpack, UnpackedFloat.unpackSign_packComponents,
    UnpackedFloat.unpackExponent_packComponents, UnpackedFloat.unpackMantissa_packComponents,
    UnpackedFloat.Sign.ofBitVec_toBitVec]
  split
  · rename_i special
    rw [if_pos (isNumber special), if_pos (isNumber special)]
    rfl
  · split
    · split <;> rfl
    · rfl

/-- What is negated is packed and taken apart again without a loss. -/
theorem unpack_pack_neg {spec : Format} {bits : BitVec spec.numBits} (valid : spec.Valid bits)
    (wide : 2 ≤ spec.exponentBits) :
    unpack spec (UnpackedFloat.pack spec (unpack spec bits).neg) = (unpack spec bits).neg := by
  by_cases isNumber : unpackExponent bits = -1#(spec.exponentBits) →
      unpackMantissa bits = 0#(spec.mantissaBitsWithoutImplicit)
  · rw [← unpack_packComponents_neg isNumber, UnpackedFloat.pack_unpack_of_valid ?_ wide]
    constructor
    intro special notInfinite
    rw [UnpackedFloat.unpackExponent_packComponents] at special
    rw [UnpackedFloat.unpackMantissa_packComponents] at notInfinite
    exact absurd (isNumber special) notInfinite
  · obtain ⟨special, notInfinite⟩ := Classical.not_imp.mp isNumber
    rw [valid.eq_packedNaN special notInfinite, UnpackedFloat.unpack_packedNaN]
    exact UnpackedFloat.unpack_packedNaN

/-- **Negation changes the sign and nothing else.** -/
theorem unpack_neg (number : Float) : (-number).toModel.unpack = number.toModel.unpack.neg :=
  unpack_pack_neg number.toModel.valid (by decide)

theorem eq_of_unpack_eq {left right : Float}
    (same : left.toModel.unpack = right.toModel.unpack) : left = right := by
  obtain ⟨⟨leftBits, leftValid⟩⟩ := left
  obtain ⟨⟨rightBits, rightValid⟩⟩ := right
  have sameBits : leftBits.toBitVec = rightBits.toBitVec := by
    rw [← UnpackedFloat.pack_unpack_of_valid leftValid,
      ← UnpackedFloat.pack_unpack_of_valid rightValid]
    exact congrArg (UnpackedFloat.pack Format.binary64) same
  cases UInt64.toBitVec_inj.mp sameBits
  rfl

/-- **Negated twice, a number is the same**, bit for bit. -/
theorem negated_twice (number : Float) : - -number = number := by
  refine eq_of_unpack_eq ?_
  rw [unpack_neg, unpack_neg]
  cases number.toModel.unpack with
  | notANumber => rfl
  | infinity sign | zero sign | finite sign => cases sign <;> rfl

/-- **The negation of a finite number is finite.** -/
theorem isFinite_neg (number : Float) : (-number).isFinite = number.isFinite := by
  show (-number).toModel.unpack.isFinite = number.toModel.unpack.isFinite
  rw [unpack_neg]
  cases number.toModel.unpack <;> rfl

theorem isNaN_isInf_of_isFinite {number : Float} (finite : number.isFinite = true) :
    number.isNaN = false ∧ number.isInf = false := by
  change number.toModel.unpack.isFinite = true at finite
  show number.toModel.unpack.isNaN = false ∧ number.toModel.unpack.isInf = false
  cases unpacked : number.toModel.unpack with
  | notANumber | infinity sign =>
      rw [unpacked] at finite
      cases finite
  | zero sign | finite sign mantissa exponent positive => exact ⟨rfl, rfl⟩

/-! ## Literals and operators -/

theorem Literal.isFinite_of_read {run : List Char} {value : Float}
    (isLiteral : read run = .ok value) : value.isFinite = true := by
  simp only [read] at isLiteral
  split at isLiteral
  · split at isLiteral
    · cases isLiteral
      assumption
    · cases isLiteral
  · cases isLiteral

theorem BinaryOp.isFinite_of_apply {op : BinaryOp} {left right result : Float} {position : Nat}
    (applied : op.apply left right position = .ok result) : result.isFinite = true := by
  obtain ⟨-, finite, rfl⟩ := apply_eq_ok_iff.mp applied
  exact finite

theorem Sign.isFinite_apply {polarity : Sign} {operand : Float}
    (finite : operand.isFinite = true) : (polarity.apply operand).isFinite = true := by
  cases polarity with
  | plus => exact finite
  | minus => exact (isFinite_neg operand).trans finite

end InfixArithmetic
