import InfixArithmetic.Failure
import InfixArithmetic.Pending

/-!
# Operand sides

The precedence machine decides when a number is an operand and when an operator
is applied; what that means is left to an operand side.  One side computes the
value of an expression, another one writes it down in reverse Polish order.

A side is a state with three operations, and each of them leaves a state behind
even when it fails: what a failing application took stays taken.
-/

namespace InfixArithmetic

set_option autoImplicit false

/-- A state of type `σ` that takes numbers and operators and yields a result of
type `β`. -/
class OperandSide (σ : Type) (β : outParam Type) where
  /-- Takes a number that stands at a position. -/
  take : σ → Float → Nat → σ
  /-- Applies a pending operator. -/
  apply : σ → Pending → Except Failure Unit × σ
  /-- Yields the result at the end, which stands at a position. -/
  result : σ → Nat → Except Failure β × σ

/-! ## Calls -/

/-- One use of an operand side. -/
inductive Call where
  | take (value : Float) (position : Nat)
  | apply (entry : Pending)
  | result (position : Nat)
  deriving DecidableEq

namespace OperandSide

variable {σ β : Type} [OperandSide σ β]

/-- Makes one call.  Only the call for the result is answered with one. -/
def perform (state : σ) : Call → Except Failure (Option β) × σ
  | .take value position => (.ok none, take state value position)
  | .apply entry =>
      match apply state entry with
      | (.ok (), state) => (.ok none, state)
      | (.error failure, state) => (.error failure, state)
  | .result position =>
      match result state position with
      | (.ok value, state) => (.ok (some value), state)
      | (.error failure, state) => (.error failure, state)

/-- Makes calls one after another, going on after failures, and gives all
answers. -/
def performAll (state : σ) : List Call → List (Except Failure (Option β))
  | [] => []
  | call :: rest =>
      let (answer, state) := perform state call
      answer :: performAll state rest

end OperandSide

end InfixArithmetic
