import InfixArithmetic.Arithmetic

/-!
# Expressions as trees

The precedence machine never builds a tree.  A tree is what its work is measured
against: it has a node for every number, every sign, every binary operator and
every pair of parentheses, each with its place in the source, and three things
can be read off it.  Its tokens in the order of the source give the expression
back.  Its tokens in post-order, parentheses dropped, are the expression in
reverse Polish order.  And its value is computed from the values of its parts,
the left one before the right one.
-/

namespace InfixArithmetic

set_option autoImplicit false

/-- An expression with the places of its tokens. -/
inductive Expression where
  | number (value : Float) (position : Nat)
  | signed (polarity : Sign) (position : Nat) (operand : Expression)
  | binary (op : BinaryOp) (position : Nat) (left right : Expression)
  /-- An expression between parentheses. -/
  | group (opening : Nat) (body : Expression) (closing : Nat)
  deriving DecidableEq

namespace Expression

/-- The tokens of an expression in the order of the source. -/
def tokens : Expression → List (Token × Nat)
  | .number value position => [(.number value, position)]
  | .signed polarity position operand => (.sign polarity, position) :: operand.tokens
  | .binary op position left right => left.tokens ++ (.binary op, position) :: right.tokens
  | .group opening body closing => (.opening, opening) :: body.tokens ++ [(.closing, closing)]

/-- The tokens of an expression in reverse Polish order: operands from left to
right, then their operator or sign. -/
def postorder : Expression → List Token
  | .number value _ => [.number value]
  | .signed polarity _ operand => operand.postorder ++ [.sign polarity]
  | .binary op _ left right => left.postorder ++ right.postorder ++ [.binary op]
  | .group _ body _ => body.postorder

/-- The value of an expression, or the first operator in post-order that has no
result. -/
def value : Expression → Except ArithmeticError Float
  | .number value _ => .ok value
  | .signed polarity _ operand =>
      match operand.value with
      | .error error => .error error
      | .ok operand => .ok (polarity.apply operand)
  | .binary op position left right =>
      match left.value with
      | .error error => .error error
      | .ok left =>
          match right.value with
          | .error error => .error error
          | .ok right => op.apply left right position
  | .group _ body _ => body.value

end Expression

end InfixArithmetic
