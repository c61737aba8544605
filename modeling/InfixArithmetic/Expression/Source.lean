import InfixArithmetic.Expression.Grammar
import InfixArithmetic.Lexeme.Basic

/-!
# The grammar of lexemes

The lexemes of a source show neither which plus is a sign nor where a star is
understood.  Their grammar has the same three ranks as that of tokens and one more
production: a product may be followed by a unit with nothing between them when the
product ends in a closing parenthesis and the unit starts with a number or an
opening one.  The node for it is a multiplication that stands where the unit
starts.
-/

namespace InfixArithmetic

set_option autoImplicit false

/-- The operator that a lexeme is between two operands. -/
def Lexeme.op? : Lexeme → Option BinaryOp
  | .plus => some .add
  | .minus => some .sub
  | .star => some .mul
  | .slash => some .div
  | .percent => some .rem
  | .number _ | .opening | .closing => none

/-- The sign that a lexeme is before an operand. -/
def Lexeme.sign? : Lexeme → Option Sign
  | .plus => some .plus
  | .minus => some .minus
  | .number _ | .star | .slash | .percent | .opening | .closing => none

/-- Whether a lexeme can be multiplied with a group right before it. -/
def Lexeme.startsFactor : Lexeme → Bool
  | .number _ | .opening => true
  | .plus | .minus | .star | .slash | .percent | .closing => false

/-- The placed lexemes that an expression of a rank is read from. -/
inductive Reads : Rank → List (Lexeme × Nat) → Expression → Prop where
  | number (value : Float) (position : Nat) :
    Reads .unit [(.number value, position)] (.number value position)
  | signed {lexemes : List (Lexeme × Nat)} {operand : Expression} (lexeme : Lexeme)
      (polarity : Sign) (position : Nat) (shown : lexeme.sign? = some polarity)
      (read : Reads .unit lexemes operand) :
    Reads .unit ((lexeme, position) :: lexemes) (.signed polarity position operand)
  | group {lexemes : List (Lexeme × Nat)} {body : Expression} (opening closing : Nat)
      (read : Reads .sum lexemes body) :
    Reads .unit ((.opening, opening) :: lexemes ++ [(.closing, closing)])
      (.group opening body closing)
  | ofUnit {lexemes : List (Lexeme × Nat)} {expression : Expression}
      (read : Reads .unit lexemes expression) :
    Reads .product lexemes expression
  | multiply {front back : List (Lexeme × Nat)} {left right : Expression} (lexeme : Lexeme)
      (op : BinaryOp) (position : Nat) (shown : lexeme.op? = some op)
      (ranked : op.rank = .product)
      (readLeft : Reads .product front left) (readRight : Reads .unit back right) :
    Reads .product (front ++ (lexeme, position) :: back) (.binary op position left right)
  | juxtapose {front back : List (Lexeme × Nat)} {left right : Expression} (closing : Nat)
      (first : Lexeme) (position : Nat) (starts : first.startsFactor = true)
      (readLeft : Reads .product (front ++ [(.closing, closing)]) left)
      (readRight : Reads .unit ((first, position) :: back) right) :
    Reads .product (front ++ (.closing, closing) :: (first, position) :: back)
      (.binary .mul position left right)
  | ofProduct {lexemes : List (Lexeme × Nat)} {expression : Expression}
      (read : Reads .product lexemes expression) :
    Reads .sum lexemes expression
  | add {front back : List (Lexeme × Nat)} {left right : Expression} (lexeme : Lexeme)
      (op : BinaryOp) (position : Nat) (shown : lexeme.op? = some op) (ranked : op.rank = .sum)
      (readLeft : Reads .sum front left) (readRight : Reads .product back right) :
    Reads .sum (front ++ (lexeme, position) :: back) (.binary op position left right)

end InfixArithmetic
