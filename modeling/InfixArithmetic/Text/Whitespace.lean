/-!
# White space at the ends of a line

The characters with the Unicode property `White_Space` are twenty-five, in the
ranges below.  They are more than the blanks of an expression: a line may start
with a no-break space that an expression may not hold.
-/

namespace InfixArithmetic

set_option autoImplicit false

namespace Text

/-- The ranges of code points, first and last, that have the property
`White_Space`. -/
def whitespaceRanges : List (Nat × Nat) :=
  [(0x0009, 0x000D), (0x0020, 0x0020), (0x0085, 0x0085), (0x00A0, 0x00A0), (0x1680, 0x1680),
   (0x2000, 0x200A), (0x2028, 0x2029), (0x202F, 0x202F), (0x205F, 0x205F), (0x3000, 0x3000)]

/-- Whether a character has the property `White_Space`. -/
def isWhitespace (character : Char) : Bool :=
  whitespaceRanges.any fun range => range.1 ≤ character.toNat && character.toNat ≤ range.2

/-- A text without the white space at its two ends. -/
def trim (text : List Char) : List Char :=
  ((text.dropWhile isWhitespace).reverse.dropWhile isWhitespace).reverse

end Text

end InfixArithmetic
