import InfixArithmetic.Decimal.Layout
import InfixArithmetic.Decimal.Literal
import InfixArithmetic.Proofs.Decimal.Digits
import Mathlib

/-!
# The number that digits write

Digits with at most one point among them write a number exactly, whatever double is nearest to
it (`Literal.value`).  With every place written, a decimal is laid out in one of three ways,
with zeros behind its digits, with the point among them, or with zeros before them; each of them
writes the value of the decimal (`Layout.value_positional`).
-/

namespace InfixArithmetic

set_option autoImplicit false

namespace Literal

/-! ## Digits -/

/-- Digits in front of others count for as many powers of ten as there are others. -/
theorem digitsValue_append (front back : List Char) :
    digitsValue (front ++ back) = 10 ^ back.length * digitsValue front + digitsValue back := by
  show Nat.ofDigitChars 10 (front ++ back) 0 = _
  rw [Nat.ofDigitChars_append, Nat.ofDigitChars_eq_ofDigitChars_zero]
  rfl

theorem digitsValue_zeros (count : Nat) : digitsValue (List.replicate count '0') = 0 :=
  Nat.ofDigitChars_replicate_zero

theorem digitsValue_zeros_append (count : Nat) (digits : List Char) :
    digitsValue (List.replicate count '0' ++ digits) = digitsValue digits := by
  rw [digitsValue_append, digitsValue_zeros, Nat.mul_zero, Nat.zero_add]

theorem digitsValue_append_zeros (digits : List Char) (count : Nat) :
    digitsValue (digits ++ List.replicate count '0') = 10 ^ count * digitsValue digits := by
  rw [digitsValue_append, digitsValue_zeros, List.length_replicate, Nat.add_zero]

/-! ## Digits with a point -/

/-- The number that a run of digits and points writes. -/
def value (run : List Char) : Rat :=
  (digitsValue (whole run ++ fraction run) : Rat) / 10 ^ (fraction run).length

variable {front : List Char}

theorem value_of_digits (noPoint : '.' ∉ front) : value front = digitsValue front := by
  have digits : ∀ character ∈ front, decide (character ≠ '.') = true :=
    fun character member => decide_eq_true fun isPoint => noPoint (isPoint ▸ member)
  have isWhole : whole front = front := List.takeWhile_eq_self_iff.mpr digits
  have noFraction : fraction front = [] := by
    rw [fraction, List.dropWhile_eq_nil_iff.mpr digits]
    rfl
  rw [value, isWhole, noFraction, List.append_nil, List.length_nil, pow_zero, div_one]

theorem value_of_point (noPoint : '.' ∉ front) (back : List Char) :
    value (front ++ '.' :: back) = (digitsValue (front ++ back) : Rat) / 10 ^ back.length := by
  have digits : ∀ character ∈ front, decide (character ≠ '.') = true :=
    fun character member => decide_eq_true fun isPoint => noPoint (isPoint ▸ member)
  have isWhole : whole (front ++ '.' :: back) = front := by
    rw [whole, List.takeWhile_append_of_pos digits]
    exact List.append_nil front
  have isFraction : fraction (front ++ '.' :: back) = back := by
    rw [fraction, List.dropWhile_append_of_pos digits]
    rfl
  rw [value, isWhole, isFraction]

end Literal

/-! ## Decimals -/

namespace Decimal

theorem point_not_mem_digits (number : Nat) : '.' ∉ digits number :=
  fun member => absurd (isDigit_of_mem_digits member) (by decide)

/-- A number ends in zeros because it is divisible by a power of ten. -/
theorem ten_pow_trailingZeros_dvd (number : Nat) : 10 ^ trailingZeros number ∣ number := by
  have zeros : (digits number).reverse.takeWhile (· = '0')
      = List.replicate (trailingZeros number) '0' :=
    List.eq_replicate_iff.mpr ⟨rfl, fun character member => by
      simpa using List.mem_takeWhile_imp member⟩
  have cut : digits number = ((digits number).reverse.dropWhile (· = '0')).reverse
      ++ List.replicate (trailingZeros number) '0' := by
    have whole := congrArg List.reverse
      (List.takeWhile_append_dropWhile (p := (· = '0')) (l := (digits number).reverse))
    rw [zeros, List.reverse_append, List.reverse_reverse, List.reverse_replicate] at whole
    exact whole.symm
  refine ⟨Literal.digitsValue ((digits number).reverse.dropWhile (· = '0')).reverse, ?_⟩
  rw [← Literal.digitsValue_append_zeros, ← cut, Literal.digitsValue_digits]

/-- **Moving zeros into the exponent does not change the value.** -/
theorem value_trimmed (number : Decimal) : number.trimmed.value = number.value := by
  have powers : (10 : Rat) ^ trailingZeros number.coefficient ≠ 0 := pow_ne_zero _ (by norm_num)
  have quotient : ((number.coefficient / Nat.pow 10 (trailingZeros number.coefficient) : Nat) : Rat)
      = number.coefficient / 10 ^ trailingZeros number.coefficient := by
    rw [Nat.pow_eq, Nat.cast_div_charZero (ten_pow_trailingZeros_dvd number.coefficient)]
    norm_num
  simp only [value, trimmed, quotient]
  rw [zpow_add₀ (by norm_num), zpow_natCast, mul_comm ((10 : Rat) ^ number.exponent), ← mul_assoc,
    div_mul_cancel₀ _ powers]

end Decimal

/-- **With every place written, digits write the value of their decimal.** -/
theorem Layout.value_positional (number : Decimal) :
    Literal.value (plain.positional number) = number.value := by
  obtain ⟨coefficient, exponent⟩ := number
  have noPoint := Decimal.point_not_mem_digits coefficient
  have digitsValue := Literal.digitsValue_digits coefficient
  simp only [positional, Decimal.value]
  split
  · rename_i whole
    obtain ⟨zeros, rfl⟩ := Int.eq_ofNat_of_zero_le whole
    have noPointToo : '.' ∉ Decimal.digits coefficient ++ List.replicate zeros '0' := by
      simp [noPoint]
    show Literal.value (Decimal.digits coefficient ++ List.replicate zeros '0' ++ []) = _
    rw [List.append_nil, Literal.value_of_digits noPointToo, Literal.digitsValue_append_zeros,
      digitsValue, zpow_natCast, mul_comm]
    norm_num
  rename_i broken
  obtain ⟨places, rfl⟩ := Int.exists_eq_neg_ofNat (Int.le_of_lt (Int.not_le.mp broken))
  rw [zpow_neg, zpow_natCast, ← div_eq_mul_inv]
  split
  · rename_i inside
    have noPointToo : '.' ∉ (Decimal.digits coefficient).take
        (((Decimal.digits coefficient).length : Int) + -(places : Int)).toNat :=
      fun member => noPoint (List.mem_of_mem_take member)
    rw [Literal.value_of_point noPointToo, List.take_append_drop, digitsValue, List.length_drop]
    congr
    omega
  · rename_i outside
    obtain ⟨zeros, isCount⟩ := Int.eq_ofNat_of_zero_le (Int.neg_nonneg.mpr (Int.not_lt.mp outside))
    have noPointToo : '.' ∉ ['0'] := by decide
    rw [isCount]
    show Literal.value (['0'] ++ '.' :: (List.replicate zeros '0' ++ Decimal.digits coefficient))
      = _
    have digitsBehind : Literal.digitsValue (['0'] ++ (List.replicate zeros '0'
        ++ Decimal.digits coefficient)) = coefficient :=
      (Literal.digitsValue_zeros_append (zeros + 1) _).trans digitsValue
    rw [Literal.value_of_point noPointToo, digitsBehind, List.length_append, List.length_replicate]
    congr
    omega

end InfixArithmetic
