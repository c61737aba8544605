import InfixArithmetic.Decimal.Layout
import InfixArithmetic.Decimal.Literal

/-!
# Digits and the number that they write

The digits of a number are digits only, and read as digits they are the number again
(`Literal.digitsValue_digits`).  With every place written, a decimal starts with a digit, and
there is nothing in it but digits and a point.
-/

namespace InfixArithmetic

set_option autoImplicit false

namespace Decimal

theorem digits_ne_nil (number : Nat) : digits number ≠ [] :=
  Nat.toDigits_ne_nil

theorem isDigit_of_mem_digits {number : Nat} {character : Char}
    (member : character ∈ digits number) : character.isDigit = true :=
  Nat.isDigit_of_mem_toDigits (by decide) (by decide) member

theorem exists_digits_eq_cons (number : Nat) :
    ∃ first rest, digits number = first :: rest ∧ first.isDigit = true := by
  obtain ⟨first, rest, written⟩ := List.exists_cons_of_ne_nil (digits_ne_nil number)
  have member : first ∈ digits number := by
    rw [written]
    exact List.mem_cons_self
  exact ⟨first, rest, written, isDigit_of_mem_digits member⟩

end Decimal

/-- **Read as digits, the digits of a number are that number.** -/
theorem Literal.digitsValue_digits (number : Nat) :
    digitsValue (Decimal.digits number) = number :=
  Nat.ofDigitChars_ten_toDigits

namespace Layout

theorem exists_positional_eq_cons (layout : Layout) (number : Decimal) :
    ∃ first rest, layout.positional number = first :: rest ∧ first.isDigit = true := by
  obtain ⟨first, rest, digits, isDigit⟩ := Decimal.exists_digits_eq_cons number.coefficient
  simp only [positional, digits]
  split
  · exact ⟨first, _, rfl, isDigit⟩
  split
  · rename_i inside
    obtain ⟨count, places⟩ :=
      Nat.exists_eq_add_one_of_ne_zero (Nat.ne_of_gt (Int.pos_iff_toNat_pos.mp inside))
    rw [places]
    exact ⟨first, _, rfl, isDigit⟩
  · exact ⟨'0', _, rfl, rfl⟩

/-- The plain layout writes every place of every number. -/
theorem magnitudeText_plain (number : Decimal) :
    plain.magnitudeText number = plain.positional number :=
  if_pos rfl

theorem isNumeral_of_mem_positional {number : Decimal} {character : Char}
    (member : character ∈ plain.positional number) : Literal.isNumeral character = true := by
  have digit {other : Char} (isOther : other ∈ Decimal.digits number.coefficient) :
      Literal.isNumeral other = true := by
    rw [Literal.isNumeral, Decimal.isDigit_of_mem_digits isOther]
    rfl
  have zero {count : Nat} {other : Char} (isOther : other ∈ List.replicate count '0') :
      Literal.isNumeral other = true := by
    rw [List.eq_of_mem_replicate isOther]
    rfl
  simp only [positional] at member
  split at member
  · obtain written | ending := List.mem_append.mp member
    · exact (List.mem_append.mp written).elim digit zero
    · cases ending
  split at member
  · obtain before | behind := List.mem_append.mp member
    · exact digit (List.mem_of_mem_take before)
    · obtain rfl | after := List.mem_cons.mp behind
      · rfl
      · exact digit (List.mem_of_mem_drop after)
  · obtain rfl | behind := List.mem_cons.mp member
    · rfl
    obtain rfl | behind := List.mem_cons.mp behind
    · rfl
    · exact (List.mem_append.mp behind).elim zero digit

end Layout

end InfixArithmetic
