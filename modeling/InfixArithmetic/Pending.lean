import InfixArithmetic.Token

/-!
# Pending operators

An operator that waits for its right operand is pending.  How tightly tokens bind
decides which pending operators are applied before a new one joins them: signs
bind tightest, then multiplication with its kin, then addition and subtraction.
Operators of one strength are applied from the left, signs from the right, and an
open parenthesis is a boundary that no new operator reaches across.
-/

namespace InfixArithmetic

set_option autoImplicit false

/-- How tightly a token binds. -/
def Token.precedence : Token → Nat
  | .sign _ => 3
  | .binary .mul | .binary .div | .binary .rem => 2
  | .binary .add | .binary .sub => 1
  | .number _ | .opening | .closing | .endOfInput => 0

/-- A token that waits on the operator stack. -/
structure Pending where
  token : Token
  /-- How tightly it binds, kept beside it. -/
  precedence : Nat
  position : Nat
  deriving DecidableEq

namespace Pending

/-- A token waits with its own precedence. -/
def of (token : Token) (position : Nat) : Pending where
  token := token
  precedence := token.precedence
  position := position

/-- Whether it marks an open parenthesis. -/
def isBoundary (entry : Pending) : Bool :=
  match entry.token with
  | .opening => true
  | _ => false

/-- Whether it is a sign, which takes one operand. -/
def isSign (entry : Pending) : Bool :=
  match entry.token with
  | .sign _ => true
  | _ => false

/-- Signs are applied from the right, every other operator from the left. -/
def isRightAssociative (entry : Pending) : Bool :=
  entry.isSign

/-- Whether a waiting entry has to be applied before an incoming one joins it. -/
def goesBefore (waiting incoming : Pending) : Bool :=
  if waiting.isBoundary then false
  else if incoming.isRightAssociative then incoming.precedence < waiting.precedence
  else incoming.precedence ≤ waiting.precedence

end Pending

end InfixArithmetic
