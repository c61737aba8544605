import InfixArithmetic.Failure
import InfixArithmetic.Decimal.Remainder

/-!
# Applying operators to numbers

An operator is applied to doubles and answers with a finite double or says why it
has none.  Division and remainder refuse a zero divisor, of either sign, before
anything is computed; every other result is checked afterwards, so neither an
infinity nor something that is not a number ever gets out.  A sign cannot fail.
-/

namespace InfixArithmetic

set_option autoImplicit false

/-- The double that an operator yields, finite or not. -/
def BinaryOp.compute : BinaryOp → Float → Float → Float
  | .add, left, right => left + right
  | .sub, left, right => left - right
  | .mul, left, right => left * right
  | .div, left, right => left / right
  | .rem, left, right => remainder left right

/-- What is wrong with a zero on the right of an operator, if anything. -/
def BinaryOp.zeroError? : BinaryOp → Nat → Option ArithmeticError
  | .div, position => some (.divisionByZero position)
  | .rem, position => some (.moduloByZero position)
  | .add, _ | .sub, _ | .mul, _ => none

/-- The refusal of a right operand. -/
def BinaryOp.refusal? (op : BinaryOp) (right : Float) (position : Nat) : Option ArithmeticError :=
  if right == 0 then op.zeroError? position else none

/-- The result of an operator that stands at a position. -/
def BinaryOp.apply (op : BinaryOp) (left right : Float) (position : Nat) :
    Except ArithmeticError Float :=
  match op.refusal? right position with
  | some error => .error error
  | none =>
      let result := op.compute left right
      if result.isFinite then .ok result else .error (.overflow position)

/-- The result of a sign. -/
def Sign.apply : Sign → Float → Float
  | .plus, operand => operand
  | .minus, operand => -operand

namespace Token

/-- The result of a token that is applied to two operands. -/
def applyBinary (token : Token) (left right : Float) (position : Nat) : Except Failure Float :=
  match token with
  | .binary op =>
      match op.apply left right position with
      | .ok result => .ok result
      | .error error => .error (.arithmetic error)
  | token => .error (.misuse token .binary position)

/-- The result of a token that is applied to one operand. -/
def applyUnary (token : Token) (operand : Float) (position : Nat) : Except Failure Float :=
  match token with
  | .sign polarity => .ok (polarity.apply operand)
  | token => .error (.misuse token .unary position)

end Token

end InfixArithmetic
