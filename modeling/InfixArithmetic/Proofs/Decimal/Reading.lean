import InfixArithmetic.Proofs.Arithmetic.Canonical
import InfixArithmetic.Proofs.Decimal.Interval
import Mathlib

/-!
# Reading the text of a number

The text of a double can be read back.  Its sign, an infinity and a zero show at once; any other
text writes a decimal number, and there is at most one double that a number reads back as, so
going through all exponents and trying the two neighbours of the number finds it
(`Magnitude.ofNumber?_of_readsBack`).

So a text is read as the very double that it was written for, the sign of a zero included
(`Layout.read?_text`), as long as there was a number.
-/

namespace InfixArithmetic

set_option autoImplicit false

open Float.Model (UnpackedFloat Format)

/-! ## The double that a number reads back as -/

namespace Magnitude

theorem isCanonical_iff {size : Magnitude} :
    size.IsCanonical ↔ 0 < size.mantissa ∧ size.mantissa < 2 ^ 53 ∧ -1074 ≤ size.exponent ∧
      size.exponent ≤ 971 ∧ (2 ^ 52 ≤ size.mantissa ∨ size.exponent = -1074) :=
  ⟨fun ⟨positive, small, least, greatest, full⟩ => ⟨positive, small, least, greatest, full⟩,
    fun ⟨positive, small, least, greatest, full⟩ => ⟨positive, small, least, greatest, full⟩⟩

instance (size : Magnitude) : Decidable size.IsCanonical :=
  decidable_of_iff _ isCanonical_iff.symm

/-- The double of an exponent that a number reads back as: its mantissa is next to the number of
spacings. -/
def ofNumberAt? (number : Rat) (exponent : Int) : Option Magnitude :=
  let below := (number / (2 : Rat) ^ exponent).floor.toNat
  [⟨below, exponent⟩, ⟨below + 1, exponent⟩].find? fun size =>
    decide size.IsCanonical && size.readsBack number

/-- The double that a number reads back as, of all exponents. -/
def ofNumber? (number : Rat) : Option Magnitude :=
  (List.range 2046).findSome? fun step : Nat => ofNumberAt? number (step - 1074)

/-- What is found at an exponent is a double that the number reads back as. -/
theorem readsBack_of_ofNumberAt? {number : Rat} {exponent : Int} {size : Magnitude}
    (found : ofNumberAt? number exponent = some size) :
    size.IsCanonical ∧ size.readsBack number = true := by
  have both := List.find?_some found
  rwa [Bool.and_eq_true, decide_eq_true_iff] at both

/-- The mantissa of a double is next to the number of spacings in a number that reads back. -/
theorem mantissa_of_readsBack {size : Magnitude} (positive : 0 < size.mantissa) {number : Rat}
    (reads : size.readsBack number = true) :
    size.mantissa = (number / (2 : Rat) ^ size.exponent).floor.toNat ∨
      size.mantissa = (number / (2 : Rat) ^ size.exponent).floor.toNat + 1 := by
  have spacing := spacing_pos size.exponent
  have quarter := spacing_pos (size.exponent - 2)
  obtain ⟨least, greatest⟩ := bounds_of_readsBack reads
  have atLeast : ((size.mantissa - 1 : Int) : Rat) ≤ number / 2 ^ size.exponent := by
    rw [le_div_iff₀ spacing, spacing_eq_quarters]
    push_cast
    linarith
  have atMost : number / 2 ^ size.exponent < ((size.mantissa + 1 : Int) : Rat) := by
    rw [div_lt_iff₀ spacing, spacing_eq_quarters]
    push_cast
    linarith
  have floorLeast := Rat.le_floor_iff.mpr atLeast
  have floorMost := Rat.floor_lt_iff.mpr atMost
  omega

theorem isSome_ofNumberAt? {size : Magnitude} (canonical : size.IsCanonical) {number : Rat}
    (reads : size.readsBack number = true) : (ofNumberAt? number size.exponent).isSome = true := by
  have good : (decide size.IsCanonical && size.readsBack number) = true := by
    rw [Bool.and_eq_true, decide_eq_true_iff]
    exact ⟨canonical, reads⟩
  refine List.find?_isSome.mpr ⟨size, ?_, good⟩
  obtain isBelow | isAbove := mantissa_of_readsBack canonical.positive reads
  · exact List.mem_cons.mpr (.inl (congrArg (Magnitude.mk · size.exponent) isBelow))
  · refine List.mem_cons_of_mem _ (List.mem_singleton.mpr ?_)
    exact congrArg (Magnitude.mk · size.exponent) isAbove

/-- **The double that a number reads back as is found.** -/
theorem ofNumber?_of_readsBack {size : Magnitude} (canonical : size.IsCanonical) {number : Rat}
    (reads : size.readsBack number = true) : ofNumber? number = some size := by
  obtain ⟨step, isStep⟩ := Int.le.dest canonical.least
  have inRange : step ∈ List.range 2046 := by
    have greatest := canonical.greatest
    rw [List.mem_range]
    omega
  have isExponent : (step : Int) - 1074 = size.exponent := by omega
  have isFound : (ofNumber? number).isSome = true := by
    rw [ofNumber?, List.findSome?_isSome_iff]
    refine ⟨step, inRange, ?_⟩
    rw [isExponent]
    exact isSome_ofNumberAt? canonical reads
  obtain ⟨other, found⟩ := Option.isSome_iff_exists.mp isFound
  obtain ⟨place, -, foundThere⟩ := List.exists_of_findSome?_eq_some found
  obtain ⟨canonicalToo, readsToo⟩ := readsBack_of_ofNumberAt? foundThere
  rw [found, eq_of_readsBack canonicalToo canonical readsToo reads]

end Magnitude

/-! ## Texts of numbers -/

/-- The double of an unpacked form. -/
def doubleOf (unpacked : UnpackedFloat) : Float :=
  .ofModel (.pack unpacked)

theorem doubleOf_unpack (number : Float) : doubleOf number.toModel.unpack = number := by
  obtain ⟨⟨bits, valid⟩⟩ := number
  have same : UnpackedFloat.pack Format.binary64 (UnpackedFloat.unpack Format.binary64
      bits.toBitVec) = bits.toBitVec :=
    UnpackedFloat.pack_unpack_of_valid valid
  simp only [doubleOf, Float.Model.pack, Float.Model.unpack, same]

namespace Layout

/-- Reads a text without a sign as the double of a sign. -/
def readUnsigned? (sign : UnpackedFloat.Sign) (text : List Char) : Option Float :=
  if text = ['i', 'n', 'f'] then
    some (doubleOf (.infinity sign))
  else if text = ['0'] then
    some (doubleOf (.zero sign))
  else
    match Magnitude.ofNumber? (Literal.value text) with
    | none => none
    | some size =>
        if positive : 0 < size.mantissa then
          some (doubleOf (.finite sign size.mantissa size.exponent positive))
        else
          none

/-- Reads a text of the plain layout. -/
def read? : List Char → Option Float
  | '-' :: text => readUnsigned? .negative text
  | text => readUnsigned? .positive text

/-- With every place written, the shortest decimal of a double is read as the double. -/
theorem readUnsigned?_shortest {size : Magnitude} (canonical : size.IsCanonical)
    (sign : UnpackedFloat.Sign) :
    readUnsigned? sign (plain.positional size.shortest)
      = some (doubleOf (.finite sign size.mantissa size.exponent canonical.positive)) := by
  have reads : size.readsBack (Literal.value (plain.positional size.shortest)) = true := by
    rw [value_positional]
    exact size.readsBack_shortest
  have notInfinite : plain.positional size.shortest ≠ ['i', 'n', 'f'] := by
    intro same
    obtain ⟨first, rest, written, isDigit⟩ := plain.exists_positional_eq_cons size.shortest
    cases written.symm.trans same
    cases isDigit
  have notZero : plain.positional size.shortest ≠ ['0'] := by
    intro same
    rw [same] at reads
    have positive : (1 : Rat) ≤ size.mantissa := by exact_mod_cast canonical.positive
    have least := (Magnitude.bounds_of_readsBack reads).1
    have above : 0 < (4 * size.mantissa - 2) * (2 : Rat) ^ (size.exponent - 2) :=
      mul_pos (by linarith) (Magnitude.spacing_pos _)
    have zero : Literal.value ['0'] = 0 := by decide +kernel
    rw [zero] at least
    linarith
  rw [readUnsigned?, if_neg notInfinite, if_neg notZero,
    Magnitude.ofNumber?_of_readsBack canonical reads]
  exact dif_pos canonical.positive

/-- A text of a number without its sign starts with a digit or is that of an infinity. -/
def StartsUnsigned (text : List Char) : Prop :=
  ∃ first rest, text = first :: rest ∧ (first.isDigit = true ∨ first = 'i')

theorem read?_signText_append {text : List Char} (unsigned : StartsUnsigned text)
    (sign : UnpackedFloat.Sign) : read? (signText sign ++ text) = readUnsigned? sign text := by
  obtain ⟨first, rest, rfl, starts⟩ := unsigned
  cases sign with
  | negative => rfl
  | positive =>
      have noSign : first ≠ '-' := by
        rintro rfl
        obtain isDigit | same := starts
        · cases isDigit
        · cases same
      rw [signText, List.nil_append, read?]
      rintro _ ⟨⟩
      exact noSign rfl

/-- The text of what is a number is a sign and a text that is read as the number. -/
theorem exists_text_eq {number : Float} (isNumber : number.isNaN = false) :
    ∃ sign text, plain.text number = signText sign ++ text ∧ StartsUnsigned text ∧
      readUnsigned? sign text = some number := by
  change number.toModel.unpack.isNaN = false at isNumber
  have unpacked := doubleOf_unpack number
  rw [Layout.text]
  split
  · rename_i isNaN
    rw [isNaN] at isNumber
    cases isNumber
  · rename_i sign isInfinite
    rw [isInfinite] at unpacked
    exact ⟨sign, _, rfl, ⟨'i', _, rfl, .inr rfl⟩, congrArg some unpacked⟩
  · rename_i sign isZero
    rw [isZero] at unpacked
    exact ⟨sign, _, rfl, ⟨'0', _, rfl, .inl rfl⟩, congrArg some unpacked⟩
  · rename_i sign mantissa exponent positive isFinite
    have canonical := Magnitude.isCanonical_of_unpack isFinite
    rw [isFinite] at unpacked
    obtain ⟨first, rest, written, isDigit⟩ :=
      plain.exists_positional_eq_cons (Magnitude.shortest ⟨mantissa, exponent⟩)
    rw [magnitudeText_plain]
    refine ⟨sign, _, rfl, ⟨first, rest, written, .inl isDigit⟩, ?_⟩
    rw [readUnsigned?_shortest canonical sign]
    exact congrArg some unpacked

/-- **The text of a number is read as that number**, bit for bit. -/
theorem read?_text {number : Float} (isNumber : number.isNaN = false) :
    read? (plain.text number) = some number := by
  obtain ⟨sign, text, written, unsigned, readsBack⟩ := exists_text_eq isNumber
  rw [written, read?_signText_append unsigned, readsBack]

theorem text_ne_nil (number : Float) : plain.text number ≠ [] := by
  rw [Layout.text]
  split
  · exact nofun
  · exact List.append_ne_nil_of_right_ne_nil _ nofun
  · exact List.append_ne_nil_of_right_ne_nil _ nofun
  · rename_i sign mantissa exponent _ _
    obtain ⟨first, rest, written, -⟩ :=
      plain.exists_positional_eq_cons (Magnitude.shortest ⟨mantissa, exponent⟩)
    rw [magnitudeText_plain, written]
    exact List.append_ne_nil_of_right_ne_nil _ nofun

theorem space_not_mem_text (number : Float) : ' ' ∉ plain.text number := by
  have signed (sign : UnpackedFloat.Sign) {text : List Char} (absent : ' ' ∉ text) :
      ' ' ∉ signText sign ++ text := by
    cases sign <;> simp [signText, absent]
  rw [Layout.text]
  split
  · decide
  · exact signed _ (by decide)
  · exact signed _ (by decide)
  · rw [magnitudeText_plain]
    refine signed _ fun member => ?_
    have numeral := isNumeral_of_mem_positional member
    cases numeral

end Layout

end InfixArithmetic
