import InfixArithmetic.OperandSide.Basic
import InfixArithmetic.Arithmetic

/-!
# The stack of values

Computing the value of an expression takes a stack.  A number is put on top, a
sign replaces the top, and a binary operator replaces the two topmost values,
the right operand being the upper one.  Values that were taken for an operator
are gone even if it has no result.
-/

namespace InfixArithmetic

set_option autoImplicit false

/-- The values that wait for their operators, the latest first. -/
structure ValueStack where
  values : List Float := []
  deriving DecidableEq

namespace ValueStack

/-- The failure of an operator that finds no operand. -/
def missing (entry : Pending) : Failure :=
  .grammar (.missingOperand entry.token.mention entry.position)

/-- Puts a value on top. -/
def push (stack : ValueStack) (value : Float) : ValueStack :=
  ⟨value :: stack.values⟩

/-- Puts the result of an operator on top, or passes its failure on. -/
def settle (stack : ValueStack) : Except Failure Float → Except Failure Unit × ValueStack
  | .ok value => (.ok (), stack.push value)
  | .error failure => (.error failure, stack)

/-- Applies a sign to the top. -/
def applyUnary (stack : ValueStack) (entry : Pending) : Except Failure Unit × ValueStack :=
  match stack.values with
  | operand :: below => settle ⟨below⟩ (entry.token.applyUnary operand entry.position)
  | [] => (.error (missing entry), ⟨[]⟩)

/-- Applies an operator to the two topmost values. -/
def applyBinary (stack : ValueStack) (entry : Pending) : Except Failure Unit × ValueStack :=
  match stack.values with
  | right :: left :: below =>
      settle ⟨below⟩ (entry.token.applyBinary left right entry.position)
  | _ => (.error (missing entry), ⟨[]⟩)

/-- Applies a pending operator; what is no sign counts as binary. -/
def apply (stack : ValueStack) (entry : Pending) : Except Failure Unit × ValueStack :=
  if entry.isSign then stack.applyUnary entry else stack.applyBinary entry

/-- Takes the top, which has to be the only value. -/
def result (stack : ValueStack) (position : Nat) : Except Failure Float × ValueStack :=
  match stack.values with
  | [value] => (.ok value, ⟨[]⟩)
  | _ :: below =>
      (.error (.grammar (.missingOperator Token.endOfInput.mention position)), ⟨below⟩)
  | [] => (.error (.grammar (.emptyExpression position)), ⟨[]⟩)

instance : OperandSide ValueStack Float where
  take stack value _ := stack.push value
  apply := apply
  result := result

end ValueStack

end InfixArithmetic
