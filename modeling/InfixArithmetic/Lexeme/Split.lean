import InfixArithmetic.Lexeme.Scan

/-!
# Splitting a source

What it means for a source to be a sequence of lexemes can be said without
scanning it.  The text is nothing, or a blank and a text, or a symbol and a text,
or a run of digits and points that is as long as can be and a text; every lexeme
has the number of bytes before it as its place.  `Splits` says so for the texts
that are such sequences.  A text is faulty when such a sequence runs into a
character or a run that is none of these; `Faulty` says where, and by which error.
-/

namespace InfixArithmetic

set_option autoImplicit false

/-- Whether a run of digits and points ends where the text behind it starts. -/
def EndsRun (rest : List Char) : Prop :=
  ∀ character ∈ rest.head?, Literal.isNumeral character = false

/-- A text that starts at a position is a sequence of placed lexemes and ends at
another position. -/
inductive Splits : List Char → Nat → List (Lexeme × Nat) → Nat → Prop where
  | ended (position : Nat) : Splits [] position [] position
  | blank {rest : List Char} {lexemes : List (Lexeme × Nat)} {position final : Nat}
      (character : Char) (isBlank : Text.isBlank character = true)
      (behind : Splits rest (position + character.utf8Size) lexemes final) :
    Splits (character :: rest) position lexemes final
  | symbol {rest : List Char} {lexemes : List (Lexeme × Nat)} {position final : Nat}
      (character : Char) (lexeme : Lexeme) (isSymbol : Lexeme.ofSymbol? character = some lexeme)
      (behind : Splits rest (position + character.utf8Size) lexemes final) :
    Splits (character :: rest) position ((lexeme, position) :: lexemes) final
  | number {rest : List Char} {lexemes : List (Lexeme × Nat)} {position final : Nat}
      (run : List Char) (value : Float) (nonempty : run ≠ [])
      (numerals : ∀ character ∈ run, Literal.isNumeral character = true)
      (maximal : EndsRun rest) (isLiteral : Literal.read run = .ok value)
      (behind : Splits rest (position + Text.byteLength run) lexemes final) :
    Splits (run ++ rest) position ((.number value, position) :: lexemes) final

/-- A text that starts at a position is a sequence of placed lexemes up to an
error. -/
inductive Faulty : List Char → Nat → List (Lexeme × Nat) → ScanError → Prop where
  | character {rest : List Char} {position : Nat} (character : Char)
      (notBlank : Text.isBlank character = false)
      (notNumeral : Literal.isNumeral character = false)
      (notSymbol : Lexeme.ofSymbol? character = none) :
    Faulty (character :: rest) position [] (.unexpectedCharacter character position)
  | run {rest : List Char} {position : Nat} (run : List Char) (fault : Literal.Fault)
      (nonempty : run ≠ [])
      (numerals : ∀ character ∈ run, Literal.isNumeral character = true)
      (maximal : EndsRun rest) (isFaulty : Literal.read run = .error fault) :
    Faulty (run ++ rest) position [] (Scan.numeralError run position fault)
  | blank {rest : List Char} {lexemes : List (Lexeme × Nat)} {position : Nat}
      {error : ScanError} (character : Char) (isBlank : Text.isBlank character = true)
      (behind : Faulty rest (position + character.utf8Size) lexemes error) :
    Faulty (character :: rest) position lexemes error
  | symbol {rest : List Char} {lexemes : List (Lexeme × Nat)} {position : Nat}
      {error : ScanError} (character : Char) (lexeme : Lexeme)
      (isSymbol : Lexeme.ofSymbol? character = some lexeme)
      (behind : Faulty rest (position + character.utf8Size) lexemes error) :
    Faulty (character :: rest) position ((lexeme, position) :: lexemes) error
  | number {rest : List Char} {lexemes : List (Lexeme × Nat)} {position : Nat}
      {error : ScanError} (run : List Char) (value : Float) (nonempty : run ≠ [])
      (numerals : ∀ character ∈ run, Literal.isNumeral character = true)
      (maximal : EndsRun rest) (isLiteral : Literal.read run = .ok value)
      (behind : Faulty rest (position + Text.byteLength run) lexemes error) :
    Faulty (run ++ rest) position ((.number value, position) :: lexemes) error

end InfixArithmetic
