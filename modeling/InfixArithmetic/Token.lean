import InfixArithmetic.Decimal.Layout

/-!
# Tokens

A token is a number, a binary operator, a sign, a parenthesis or the end of the
input.  Plus and minus come in two kinds, as signs before an operand and as
operators between two; whoever produces tokens has already told them apart, so
nobody who consumes them has to look back.

A token has two texts.  `Token.text` is how it stands in a source, where a sign
and an operator of one symbol look alike.  `Token.word` is how it stands in
reverse Polish order, where they must not: signs are spelled out there.
-/

namespace InfixArithmetic

set_option autoImplicit false

/-! ## Operators and signs -/

/-- The operators between two operands. -/
inductive BinaryOp where
  | add
  | sub
  | mul
  | div
  | rem
  deriving DecidableEq

/-- The signs before an operand. -/
inductive Sign where
  | plus
  | minus
  deriving DecidableEq

/-- The character an operator is written with. -/
def BinaryOp.symbol : BinaryOp → Char
  | .add => '+'
  | .sub => '-'
  | .mul => '*'
  | .div => '/'
  | .rem => '%'

/-- The character a sign is written with. -/
def Sign.symbol : Sign → Char
  | .plus => '+'
  | .minus => '-'

/-- The word for a sign in reverse Polish order. -/
def Sign.word : Sign → List Char
  | .plus => ['p', 'o', 's']
  | .minus => ['n', 'e', 'g']

/-! ## Tokens -/

/-- What an expression is made of. -/
inductive Token where
  | number (value : Float)
  | binary (op : BinaryOp)
  | sign (polarity : Sign)
  | opening
  | closing
  | endOfInput
  deriving DecidableEq

namespace Token

/-- Whether an operand has to follow: after an operator, a sign or an opening
parenthesis.  A plus or minus that follows is then a sign. -/
def awaitsOperand : Token → Bool
  | .binary _ | .sign _ | .opening => true
  | .number _ | .closing | .endOfInput => false

/-- Whether two tokens are the same, numbers being compared as numbers: the two
zeros are equal, and what is not a number equals nothing. -/
def agrees : Token → Token → Bool
  | .number left, .number right => left == right
  | left, right => left = right

/-! ## Texts -/

/-- The text of a token in a source. -/
def text : Token → List Char
  | .number value => Layout.plain.text value
  | .binary op => [op.symbol]
  | .sign polarity => [polarity.symbol]
  | .opening => ['(']
  | .closing => [')']
  | .endOfInput => ['<', 'e', 'n', 'd', '>']

/-- A text between single quotes. -/
def inQuotes (text : List Char) : String :=
  "'" ++ String.ofList text ++ "'"

@[simp] theorem toList_inQuotes (text : List Char) :
    (inQuotes text).toList = '\'' :: (text ++ ['\'']) := by
  simp [inQuotes]

/-- A token as messages name it: its text between single quotes, or words for the
end of the input. -/
def mention : Token → String
  | .endOfInput => "end of input"
  | token => inQuotes token.text

/-- The word for a token in reverse Polish order. -/
def word : Token → List Char
  | .sign polarity => polarity.word
  | token => token.text

/-- A sequence in reverse Polish order as text, its words parted by single
spaces. -/
def reversePolishText (tokens : List Token) : String :=
  String.ofList (List.intercalate [' '] (tokens.map word))

end Token

end InfixArithmetic
