/-!
# Lexemes

A lexeme is what a source shows: a number or one of seven symbols.  It is less
than a token, for a plus is just a plus here, be it a sign or an operator.
-/

namespace InfixArithmetic

set_option autoImplicit false

/-- What a source is made of, blanks aside. -/
inductive Lexeme where
  | number (value : Float)
  | plus
  | minus
  | star
  | slash
  | percent
  | opening
  | closing
  deriving DecidableEq

/-- The lexeme that one character is, if it is one by itself. -/
def Lexeme.ofSymbol? : Char → Option Lexeme
  | '+' => some .plus
  | '-' => some .minus
  | '*' => some .star
  | '/' => some .slash
  | '%' => some .percent
  | '(' => some .opening
  | ')' => some .closing
  | _ => none

end InfixArithmetic
