import InfixArithmetic.Token

/-!
# What can go wrong, and where

A source can hold a character or a number that cannot be read, its tokens can
fail to form an expression, and an operator can have no finite result.  Every
failure carries the place in the source that it is about.  A fourth kind, misuse,
belongs to callers that hand an operand side a token which is no operator; the
precedence machine never does.
-/

namespace InfixArithmetic

set_option autoImplicit false

/-! ## The kinds of failure -/

/-- A source that cannot be split into lexemes. -/
inductive ScanError where
  /-- The character starts no lexeme. -/
  | unexpectedCharacter (character : Char) (position : Nat)
  /-- The run of digits and points is not a decimal number. -/
  | malformedNumber (literal : String) (position : Nat)
  /-- The number is beyond the largest finite double. -/
  | literalTooLarge (position : Nat)
  deriving DecidableEq

/-- Tokens that form no expression. -/
inductive GrammarError where
  /-- There is no token but the end. -/
  | emptyExpression (position : Nat)
  /-- The token described stands where an operand has to be. -/
  | missingOperand (found : String) (position : Nat)
  /-- The token described stands where an operator has to be. -/
  | missingOperator (found : String) (position : Nat)
  /-- A closing parenthesis closes no group. -/
  | unmatchedClosing (position : Nat)
  /-- The group opened here is never closed. -/
  | unclosedOpening (position : Nat)
  /-- A group closes as soon as it is opened. -/
  | emptyGroup (position : Nat)
  deriving DecidableEq

/-- An operator without a finite result. -/
inductive ArithmeticError where
  | divisionByZero (position : Nat)
  | moduloByZero (position : Nat)
  | overflow (position : Nat)
  deriving DecidableEq

/-- How many operands an operator takes. -/
inductive Arity where
  | unary
  | binary
  deriving DecidableEq

/-- Everything that can go wrong. -/
inductive Failure where
  | scan (error : ScanError)
  | grammar (error : GrammarError)
  | arithmetic (error : ArithmeticError)
  /-- The token was applied as an operator of this arity, which it is not. -/
  | misuse (token : Token) (arity : Arity) (position : Nat)
  deriving DecidableEq

/-! ## Positions -/

/-- The place in the source that a scanning error is about. -/
def ScanError.position : ScanError → Nat
  | .unexpectedCharacter _ position | .malformedNumber _ position
  | .literalTooLarge position => position

/-- The place in the source that a grammatical error is about. -/
def GrammarError.position : GrammarError → Nat
  | .emptyExpression position | .missingOperand _ position | .missingOperator _ position
  | .unmatchedClosing position | .unclosedOpening position | .emptyGroup position => position

/-- The place of the operator that has no result. -/
def ArithmeticError.position : ArithmeticError → Nat
  | .divisionByZero position | .moduloByZero position | .overflow position => position

/-- The place in the source that a failure is about. -/
def Failure.position : Failure → Nat
  | .scan error => error.position
  | .grammar error => error.position
  | .arithmetic error => error.position
  | .misuse _ _ position => position

/-! ## Messages -/

/-- What a scanning error says. -/
def ScanError.reason : ScanError → String
  | .unexpectedCharacter character _ => s!"Unexpected character '{character}'."
  | .malformedNumber literal _ => s!"Malformed number '{literal}'."
  | .literalTooLarge _ => "Literal is too large."

/-- What a grammatical error says. -/
def GrammarError.reason : GrammarError → String
  | .emptyExpression _ => "Expression is empty."
  | .missingOperand found _ => s!"Expected a number or '(' but found {found}."
  | .missingOperator found _ => s!"Expected an operator but found {found}."
  | .unmatchedClosing _ => "Closing parenthesis ')' has no matching '('."
  | .unclosedOpening _ => "Expected closing parenthesis ')' but none found."
  | .emptyGroup _ => "Parentheses enclose no expression."

/-- What an arithmetical error says. -/
def ArithmeticError.reason : ArithmeticError → String
  | .divisionByZero _ => "Division by zero."
  | .moduloByZero _ => "Modulo by zero."
  | .overflow _ => "Overflow while trying to compute result."

/-- The adjective for an arity. -/
def Arity.name : Arity → String
  | .unary => "unary"
  | .binary => "binary"

/-- The name of a token's kind, a number with its value. -/
def Token.kindName : Token → String
  | .number value => "Number(" ++ String.ofList (Layout.marked.text value) ++ ")"
  | .binary .add => "Plus"
  | .binary .sub => "Minus"
  | .binary .mul => "Star"
  | .binary .div => "Slash"
  | .binary .rem => "Percent"
  | .sign .plus => "UnaryPlus"
  | .sign .minus => "UnaryMinus"
  | .opening => "LParen"
  | .closing => "RParen"
  | .endOfInput => "End"

/-- A reason with the place it is about. -/
def located (position : Nat) (reason : String) : String :=
  s!"Error at position {position}: {reason}"

/-- The message for a failure. -/
def Failure.message : Failure → String
  | .scan error => located error.position error.reason
  | .grammar error => located error.position error.reason
  | .arithmetic error => located error.position error.reason
  | .misuse token arity _ =>
      "internal error: entered unreachable code: " ++ token.kindName ++ " is not a " ++ arity.name
        ++ " operator"

end InfixArithmetic
