import InfixArithmetic.Expression.Basic

/-!
# The grammar of tokens

Expressions come in three ranks.  A sum is a product, or a sum followed by plus or
minus and a product; a product is a unit, or a product followed by one of the
three multiplicative operators and a unit; a unit is a number, a sign before a
unit, or a sum between parentheses.  So operators of one rank gather from the left
and signs from the right.

A derivation relates a list of placed tokens to a tree.  The tree has a node for
every production that shows a token; a production that only passes from one rank
to the next leaves none, since the ranks of the parts tell where it was used.
`Derives.tokens_eq` says that the tree remembers the whole list.
-/

namespace InfixArithmetic

set_option autoImplicit false

/-- The three ranks of expressions. -/
inductive Rank where
  | sum
  | product
  | unit
  deriving DecidableEq

/-- The rank whose productions show an operator. -/
def BinaryOp.rank : BinaryOp → Rank
  | .add | .sub => .sum
  | .mul | .div | .rem => .product

/-- The placed tokens that an expression of a rank is derived from. -/
inductive Derives : Rank → List (Token × Nat) → Expression → Prop where
  | number (value : Float) (position : Nat) :
    Derives .unit [(.number value, position)] (.number value position)
  | signed {tokens : List (Token × Nat)} {operand : Expression} (polarity : Sign)
      (position : Nat) (derived : Derives .unit tokens operand) :
    Derives .unit ((.sign polarity, position) :: tokens) (.signed polarity position operand)
  | group {tokens : List (Token × Nat)} {body : Expression} (opening closing : Nat)
      (derived : Derives .sum tokens body) :
    Derives .unit ((.opening, opening) :: tokens ++ [(.closing, closing)])
      (.group opening body closing)
  | ofUnit {tokens : List (Token × Nat)} {expression : Expression}
      (derived : Derives .unit tokens expression) :
    Derives .product tokens expression
  | multiply {front back : List (Token × Nat)} {left right : Expression} (op : BinaryOp)
      (position : Nat) (ranked : op.rank = .product)
      (derivedLeft : Derives .product front left) (derivedRight : Derives .unit back right) :
    Derives .product (front ++ (.binary op, position) :: back) (.binary op position left right)
  | ofProduct {tokens : List (Token × Nat)} {expression : Expression}
      (derived : Derives .product tokens expression) :
    Derives .sum tokens expression
  | add {front back : List (Token × Nat)} {left right : Expression} (op : BinaryOp)
      (position : Nat) (ranked : op.rank = .sum)
      (derivedLeft : Derives .sum front left) (derivedRight : Derives .product back right) :
    Derives .sum (front ++ (.binary op, position) :: back) (.binary op position left right)

namespace Derives

/-- **A tree remembers the tokens it was derived from.** -/
theorem tokens_eq {rank : Rank} {tokens : List (Token × Nat)} {expression : Expression}
    (derived : Derives rank tokens expression) : expression.tokens = tokens := by
  induction derived with
  | number value position => rfl
  | signed polarity position derived ih => rw [Expression.tokens, ih]
  | group opening closing derived ih => rw [Expression.tokens, ih]
  | ofUnit derived ih => exact ih
  | multiply op position ranked derivedLeft derivedRight ihLeft ihRight =>
      rw [Expression.tokens, ihLeft, ihRight]
  | ofProduct derived ih => exact ih
  | add op position ranked derivedLeft derivedRight ihLeft ihRight =>
      rw [Expression.tokens, ihLeft, ihRight]

end Derives

end InfixArithmetic
