import InfixArithmetic.Decimal.Shortest

/-!
# The text of a number

Which digits a number has is settled by `Magnitude.shortest`; how the digits are
laid out is settled here.  A layout says for which numbers every place is
written and what follows a number without a fraction; outside that range a
number is written with an exponent.

Two layouts are in use.  `Layout.plain` writes every place of every number and
nothing after a whole number.  `Layout.marked` shows that a number is a
fractional quantity even when it is whole, and abbreviates very large and very
small ones.
-/

namespace InfixArithmetic

set_option autoImplicit false

/-- How the digits of a number are laid out. -/
structure Layout where
  /-- The exponents of the leading digit, the least and the greatest, between
  which every place is written; without bounds every place is always written. -/
  positionalRange : Option (Int × Int)
  /-- What follows the digits of a number without a fraction. -/
  wholeEnding : List Char

namespace Layout

/-- Every place is written, and nothing follows a whole number. -/
def plain : Layout := ⟨none, []⟩

/-- Every place is written from `10 ^ -4` up to `10 ^ 16`, and a whole number
ends in a zero behind the point. -/
def marked : Layout := ⟨some (-4, 15), ['.', '0']⟩

/-- Whether a number with this leading exponent has every place written. -/
def writesPlaces (layout : Layout) (leading : Int) : Bool :=
  match layout.positionalRange with
  | none => true
  | some (least, greatest) => least ≤ leading && leading ≤ greatest

/-! ## Digits with a point, digits with an exponent -/

/-- The digits of a decimal with every place written. -/
def positional (layout : Layout) (number : Decimal) : List Char :=
  let digits := Decimal.digits number.coefficient
  let point := (digits.length : Int) + number.exponent
  if 0 ≤ number.exponent then
    digits ++ List.replicate number.exponent.toNat '0' ++ layout.wholeEnding
  else if 0 < point then
    digits.take point.toNat ++ '.' :: digits.drop point.toNat
  else
    '0' :: '.' :: List.replicate (-point).toNat '0' ++ digits

/-- The digits of an exponent, with a minus sign before a negative one. -/
def exponentText (exponent : Int) : List Char :=
  if exponent < 0 then '-' :: Decimal.digits (-exponent).toNat else Decimal.digits exponent.toNat

/-- The digits of a decimal with one place before the point and an exponent. -/
def scientific (number : Decimal) : List Char :=
  let mantissa := match Decimal.digits number.coefficient with
    | first :: second :: rest => first :: '.' :: second :: rest
    | digits => digits
  mantissa ++ 'e' :: exponentText number.leadingExponent

/-- The text of a positive decimal. -/
def magnitudeText (layout : Layout) (number : Decimal) : List Char :=
  if layout.writesPlaces number.leadingExponent then
    layout.positional number
  else
    scientific number

/-! ## All doubles -/

/-- A negative number starts with a minus sign, the negative zero included. -/
def signText : Float.Model.UnpackedFloat.Sign → List Char
  | .negative => ['-']
  | .positive => []

/-- The text of a double. -/
def text (layout : Layout) (number : Float) : List Char :=
  match number.toModel.unpack with
  | .notANumber => ['N', 'a', 'N']
  | .infinity sign => signText sign ++ ['i', 'n', 'f']
  | .zero sign => signText sign ++ '0' :: layout.wholeEnding
  | .finite sign mantissa exponent _ =>
      signText sign ++ layout.magnitudeText (Magnitude.shortest ⟨mantissa, exponent⟩)

end Layout

end InfixArithmetic
