import InfixArithmetic.Failure
import InfixArithmetic.Lexeme.Basic
import InfixArithmetic.Decimal.Literal
import InfixArithmetic.Text.Blank

/-!
# From characters to lexemes

A source is read from left to right.  Blanks are passed over, a symbol is a
lexeme by itself, and a run of digits and points is taken as long as it goes and
then has to be a number.  The first character or run that fits nowhere ends the
reading with an error; otherwise it ends behind the last character.  So a reading
is a chain of lexemes, each with its place, and at its end either the length of
the source or an error.
-/

namespace InfixArithmetic

set_option autoImplicit false

/-- The reading of a source. -/
inductive Scan where
  /-- A lexeme with its place, and the reading of what follows it. -/
  | read (lexeme : Lexeme) (position : Nat) (rest : Scan)
  /-- The reading stops at an error. -/
  | refused (error : ScanError)
  /-- The source ends at this place. -/
  | ended (position : Nat)

namespace Scan

/-- The error for a run of digits and points without a value. -/
def numeralError (run : List Char) (position : Nat) : Literal.Fault → ScanError
  | .malformed => .malformedNumber (String.ofList run) position
  | .tooLarge => .literalTooLarge position

/-- The rest behind a run is shorter than the text that starts with the run. -/
theorem length_dropWhile_lt_cons (test : Char → Bool) (character : Char) (rest : List Char) :
    (rest.dropWhile test).length < (character :: rest).length :=
  Nat.lt_succ_of_le (List.dropWhile_suffix test).length_le

/-- The reading of a text that starts at a position. -/
def ofChars : List Char → Nat → Scan
  | [], position => .ended position
  | character :: rest, position =>
      if Text.isBlank character then
        ofChars rest (position + character.utf8Size)
      else if Literal.isNumeral character then
        let run := character :: rest.takeWhile Literal.isNumeral
        match Literal.read run with
        | .ok value =>
            .read (.number value) position
              (ofChars (rest.dropWhile Literal.isNumeral) (position + Text.byteLength run))
        | .error fault => .refused (numeralError run position fault)
      else
        match Lexeme.ofSymbol? character with
        | some lexeme => .read lexeme position (ofChars rest (position + character.utf8Size))
        | none => .refused (.unexpectedCharacter character position)
termination_by text => text.length
decreasing_by
  · exact Nat.lt_succ_self _
  · exact length_dropWhile_lt_cons _ character rest
  · exact Nat.lt_succ_self _

/-- The reading of a source. -/
def ofText (source : String) : Scan :=
  ofChars source.toList 0

/-- The number of links in the chain, its end included. -/
def length : Scan → Nat
  | .read _ _ rest => rest.length + 1
  | .refused _ | .ended _ => 1

end Scan

end InfixArithmetic
