import InfixArithmetic.Decimal.Shortest
import InfixArithmetic.Proofs.Decimal.Value
import Mathlib

/-!
# The numbers that read back as a double

A finite double other than zero has one mantissa and one exponent (`Magnitude.IsCanonical`), and
the numbers that read back as it form an interval.  The intervals of two doubles touch at most
in a midpoint (`Magnitude.Precedes`), and a midpoint belongs to the double with the even
mantissa, so no number reads back as both (`Magnitude.eq_of_readsBack`).

The shortest decimal of a double lies in its interval, however it was found
(`Magnitude.readsBack_shortest`).  So a double is known by the value of its shortest decimal.
-/

namespace InfixArithmetic

set_option autoImplicit false

namespace Magnitude

/-! ## The interval, in quarters of the spacing -/

theorem spacing_pos (exponent : Int) : (0 : Rat) < 2 ^ exponent :=
  zpow_pos (by norm_num) exponent

theorem spacing_eq_quarters (exponent : Int) : (2 : Rat) ^ exponent = 4 * 2 ^ (exponent - 2) := by
  have four : (4 : Rat) = 2 ^ (2 : Int) := by norm_num
  rw [four, ← zpow_add₀ (by norm_num)]
  congr 1
  omega

theorem halfSpacing_eq_quarters (exponent : Int) :
    (2 : Rat) ^ (exponent - 1) = 2 * 2 ^ (exponent - 2) := by
  rw [← zpow_one_add₀ (by norm_num)]
  congr 1
  omega

/-- The midpoint below a double in quarters of its spacing. -/
def lowerQuarters (size : Magnitude) : Rat :=
  if size.isNarrowBelow then 4 * size.mantissa - 1 else 4 * size.mantissa - 2

theorem lower_eq (size : Magnitude) :
    size.lower = size.lowerQuarters * (2 : Rat) ^ (size.exponent - 2) := by
  rw [lower, lowerQuarters]
  split
  · rfl
  · rw [halfSpacing_eq_quarters]
    ring

theorem upper_eq (size : Magnitude) :
    size.upper = (4 * size.mantissa + 2) * (2 : Rat) ^ (size.exponent - 2) := by
  rw [upper, halfSpacing_eq_quarters]
  ring

theorem value_eq (size : Magnitude) :
    size.value = 4 * size.mantissa * (2 : Rat) ^ (size.exponent - 2) := by
  rw [value, spacing_eq_quarters]
  ring

theorem lowerQuarters_bounds (size : Magnitude) :
    4 * size.mantissa - 2 ≤ size.lowerQuarters ∧ size.lowerQuarters < 4 * size.mantissa := by
  rw [lowerQuarters]
  split <;> constructor <;> linarith

/-- A number reads back if it lies between the midpoints, or on one of them if the mantissa is
even. -/
theorem readsBack_iff {size : Magnitude} {number : Rat} :
    size.readsBack number = true ↔
      (size.lower < number ∧ number < size.upper) ∨
        (size.mantissa % 2 = 0 ∧ (number = size.lower ∨ number = size.upper)) := by
  simp [readsBack]

theorem readsBack_value (size : Magnitude) : size.readsBack size.value = true := by
  have spacing := spacing_pos (size.exponent - 2)
  refine readsBack_iff.mpr (.inl ⟨?_, ?_⟩)
  · rw [lower_eq, value_eq]
    exact mul_lt_mul_of_pos_right size.lowerQuarters_bounds.2 spacing
  · rw [upper_eq, value_eq]
    exact mul_lt_mul_of_pos_right (by linarith) spacing

theorem lower_lt_upper (size : Magnitude) : size.lower < size.upper := by
  have below := size.lowerQuarters_bounds.2
  rw [lower_eq, upper_eq]
  exact mul_lt_mul_of_pos_right (by linarith) (spacing_pos _)

/-- A number that reads back is at most half a spacing away. -/
theorem bounds_of_readsBack {size : Magnitude} {number : Rat}
    (reads : size.readsBack number = true) :
    (4 * size.mantissa - 2) * (2 : Rat) ^ (size.exponent - 2) ≤ number ∧
      number ≤ (4 * size.mantissa + 2) * (2 : Rat) ^ (size.exponent - 2) := by
  have least := mul_le_mul_of_nonneg_right size.lowerQuarters_bounds.1
    (spacing_pos (size.exponent - 2)).le
  have order := size.lower_lt_upper
  rw [← lower_eq] at least
  rw [← upper_eq]
  obtain ⟨more, less⟩ | ⟨-, rfl | rfl⟩ := readsBack_iff.mp reads
  · exact ⟨least.trans more.le, less.le⟩
  · exact ⟨least, order.le⟩
  · exact ⟨least.trans order.le, le_rfl⟩

/-! ## Doubles -/

/-- The sizes of finite doubles other than zero: the mantissa has 53 bits, or fewer at the least
exponent. -/
structure IsCanonical (size : Magnitude) : Prop where
  positive : 0 < size.mantissa
  small : size.mantissa < 2 ^ 53
  least : -1074 ≤ size.exponent
  greatest : size.exponent ≤ 971
  full : 2 ^ 52 ≤ size.mantissa ∨ size.exponent = -1074

theorem isNarrowBelow_iff {size : Magnitude} :
    size.isNarrowBelow = true ↔ size.mantissa = 2 ^ 52 ∧ -1074 < size.exponent := by
  simp [isNarrowBelow]

theorem IsCanonical.lowerQuarters_of_lt {left right : Magnitude} (canonical : left.IsCanonical)
    (same : left.exponent = right.exponent) (less : left.mantissa < right.mantissa) :
    right.lowerQuarters = 4 * right.mantissa - 2 := by
  refine if_neg fun narrow => ?_
  obtain ⟨atPower, above⟩ := isNarrowBelow_iff.mp narrow
  obtain full | least := canonical.full <;> omega

/-- Above the least exponent the midpoint below is at least one quarter below the power of
two, and more than that behind it. -/
theorem IsCanonical.lowerQuarters_of_full {size : Magnitude} (canonical : size.IsCanonical)
    (above : -1074 < size.exponent) : 2 ^ 54 - 1 ≤ size.lowerQuarters := by
  have full : 2 ^ 52 ≤ size.mantissa := canonical.full.resolve_right (by omega)
  rw [lowerQuarters]
  split
  · have least : (2 : Rat) ^ 52 ≤ size.mantissa := by exact_mod_cast full
    linarith
  · rename_i wide
    have more : 2 ^ 52 + 1 ≤ size.mantissa := by
      have other : size.mantissa ≠ 2 ^ 52 := fun same => wide (isNarrowBelow_iff.mpr ⟨same, above⟩)
      omega
    have least : (2 : Rat) ^ 52 + 1 ≤ size.mantissa := by exact_mod_cast more
    linarith

/-- The interval of a double ends before that of another one begins.  They can share a midpoint,
but then one of the mantissas is odd. -/
structure Precedes (left right : Magnitude) : Prop where
  le : left.upper ≤ right.lower
  odd : left.upper = right.lower → left.mantissa % 2 = 1 ∨ right.mantissa % 2 = 1

/-- Doubles of one exponent stand in the order of their mantissas, and neighbours share a
midpoint. -/
theorem IsCanonical.precedes_of_mantissa_lt {left right : Magnitude}
    (canonical : left.IsCanonical) (same : left.exponent = right.exponent)
    (less : left.mantissa < right.mantissa) : left.Precedes right := by
  have spacing := spacing_pos (right.exponent - 2)
  have next : (left.mantissa : Rat) + 1 ≤ right.mantissa := by exact_mod_cast less
  constructor <;> rw [upper_eq, lower_eq, same, canonical.lowerQuarters_of_lt same less]
  · exact mul_le_mul_of_nonneg_right (by linarith) spacing.le
  · intro touch
    have neighbours : (left.mantissa : Rat) + 1 = right.mantissa := by
      have quarters := mul_right_cancel₀ spacing.ne' touch
      linarith
    have neighboursToo : left.mantissa + 1 = right.mantissa := by exact_mod_cast neighbours
    omega

/-- A double of a smaller exponent comes first.  It shares a midpoint only if it is the last one
of its exponent. -/
theorem IsCanonical.precedes_of_exponent_lt {left right : Magnitude}
    (canonicalLeft : left.IsCanonical) (canonicalRight : right.IsCanonical)
    (less : left.exponent < right.exponent) : left.Precedes right := by
  have spacing := spacing_pos (left.exponent - 2)
  obtain ⟨steps, apart⟩ := Int.le.dest (Int.add_one_le_of_lt less)
  have spaced : (2 : Rat) ^ (right.exponent - 2) = 2 * 2 ^ steps * 2 ^ (left.exponent - 2) := by
    rw [← pow_succ', ← zpow_natCast, ← zpow_add₀ (by norm_num)]
    congr 1
    push_cast
    omega
  have atMost : (left.mantissa : Rat) + 1 ≤ 2 ^ 53 := by exact_mod_cast canonicalLeft.small
  have atLeast := canonicalRight.lowerQuarters_of_full (lt_of_le_of_lt canonicalLeft.least less)
  have quarters : (2 ^ 55 - 2 : Rat) ≤ right.lowerQuarters * (2 * 2 ^ steps) := by
    have grows : (1 : Rat) ≤ 2 ^ steps := one_le_pow₀ (by norm_num)
    have more := mul_le_mul atLeast grows zero_le_one (le_trans (by norm_num) atLeast)
    linarith
  constructor <;> rw [upper_eq, lower_eq, spaced, ← mul_assoc]
  · exact mul_le_mul_of_nonneg_right (by linarith) spacing.le
  · intro touch
    have same := mul_right_cancel₀ spacing.ne' touch
    have last : (2 : Rat) ^ 53 ≤ left.mantissa + 1 := by linarith
    have lastToo : 2 ^ 53 ≤ left.mantissa + 1 := by exact_mod_cast last
    have small := canonicalLeft.small
    omega

/-- Of two doubles one comes first, unless they are the same. -/
theorem IsCanonical.eq_or_precedes {left right : Magnitude} (canonicalLeft : left.IsCanonical)
    (canonicalRight : right.IsCanonical) :
    left = right ∨ left.Precedes right ∨ right.Precedes left := by
  obtain less | same | more := lt_trichotomy left.exponent right.exponent
  · exact .inr (.inl (canonicalLeft.precedes_of_exponent_lt canonicalRight less))
  · obtain less | sameToo | more := lt_trichotomy left.mantissa right.mantissa
    · exact .inr (.inl (canonicalLeft.precedes_of_mantissa_lt same less))
    · cases left
      cases right
      cases same
      cases sameToo
      exact .inl rfl
    · exact .inr (.inr (canonicalRight.precedes_of_mantissa_lt same.symm more))
  · exact .inr (.inr (canonicalRight.precedes_of_exponent_lt canonicalLeft more))

/-- A number that reads back as one double does not read back as one that comes later: where they
share a midpoint, one of the mantissas is odd. -/
theorem Precedes.not_readsBack {left right : Magnitude} (precedes : left.Precedes right)
    {number : Rat} (readsLeft : left.readsBack number = true) :
    ¬ right.readsBack number = true := by
  intro readsRight
  have apart := precedes.le
  have leftOrder := left.lower_lt_upper
  have rightOrder := right.lower_lt_upper
  obtain ⟨-, less⟩ | ⟨evenLeft, onLeft⟩ := readsBack_iff.mp readsLeft <;>
    obtain ⟨more, -⟩ | ⟨evenRight, onRight⟩ := readsBack_iff.mp readsRight
  · linarith
  · obtain rfl | rfl := onRight <;> linarith
  · obtain rfl | rfl := onLeft <;> linarith
  · have touch : left.upper = right.lower := by
      obtain rfl | rfl := onLeft <;> obtain same | same := onRight <;> linarith
    obtain isOdd | isOdd := precedes.odd touch <;> omega

/-- **No number reads back as two doubles.** -/
theorem eq_of_readsBack {left right : Magnitude} (canonicalLeft : left.IsCanonical)
    (canonicalRight : right.IsCanonical) {number : Rat} (readsLeft : left.readsBack number = true)
    (readsRight : right.readsBack number = true) : left = right := by
  obtain same | precedes | follows := canonicalLeft.eq_or_precedes canonicalRight
  · exact same
  · exact absurd readsRight (precedes.not_readsBack readsLeft)
  · exact absurd readsLeft (follows.not_readsBack readsRight)

/-! ## The shortest decimal -/

/-- What the search finds on a grid reads back. -/
theorem readsBack_of_onGrid {size : Magnitude} {exponent : Int} {found : Decimal}
    (isFound : size.onGrid exponent = some found) : size.readsBack found.value = true := by
  simp only [onGrid] at isFound
  split at isFound
  · cases isFound
    split <;> assumption
  · cases isFound
    assumption
  · cases isFound
    assumption
  · cases isFound

/-- The exact expansion is the value of the double. -/
theorem value_exactDecimal (size : Magnitude) : size.exactDecimal.value = size.value := by
  obtain ⟨mantissa, exponent⟩ := size
  simp only [exactDecimal, value]
  split
  · rename_i whole
    obtain ⟨places, rfl⟩ := Int.eq_ofNat_of_zero_le whole
    simp [Decimal.value]
  · rename_i broken
    obtain ⟨places, rfl⟩ := Int.exists_eq_neg_ofNat (Int.le_of_lt (Int.not_le.mp broken))
    have tens : (10 : Rat) ^ places = 5 ^ places * 2 ^ places := by
      rw [← mul_pow]
      norm_num
    simp only [Decimal.value, neg_neg, Int.toNat_natCast, zpow_neg, zpow_natCast, tens, Nat.pow_eq]
    push_cast
    field_simp

/-- **The shortest decimal of a double reads back as the double.** -/
theorem readsBack_shortest (size : Magnitude) : size.readsBack size.shortest.value = true := by
  simp only [shortest, Decimal.value_trimmed]
  cases found : (List.range 17).findSome? fun count =>
      size.onGrid (pointPosition size.value - (count + 1 : Nat)) with
  | none =>
      rw [Option.getD_none, value_exactDecimal]
      exact size.readsBack_value
  | some decimal =>
      obtain ⟨count, -, onThisGrid⟩ := List.exists_of_findSome?_eq_some found
      exact readsBack_of_onGrid onThisGrid

end Magnitude

end InfixArithmetic
