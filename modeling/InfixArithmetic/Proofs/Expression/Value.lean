import InfixArithmetic.Proofs.OperandSide.Carries
import InfixArithmetic.Proofs.Sketch.Run

/-!
# The machine computes the value of the tree

The value of an expression is defined on its tree, which the machine never builds:
the left operand first, then the right one, then the operator at its own place.
The calls of the expression do the same on a stack.  Made on any stack they put the
value on top, or they fail where the tree fails (`ValueStack.replay_calls`), so a
run over the tokens of an expression answers with the value of its tree.
-/

namespace InfixArithmetic

set_option autoImplicit false

open OperandSide

namespace ValueStack

/-- **The calls of an expression compute its value**, on top of what the stack holds. -/
theorem replay_calls (stack : ValueStack) (expression : Expression) :
    replay stack expression.calls
      = (expression.value.map stack.push).mapError Failure.arithmetic := by
  induction expression generalizing stack with
  | number value position => rfl
  | signed polarity position operand ih =>
      rw [Expression.calls, Expression.value]
      cases computed : operand.value with
      | ok value =>
          have replayed := ih stack
          rw [computed] at replayed
          rw [replay_append_of_ok replayed, replay_apply_of_ok (stack.apply_sign ..)]
          rfl
      | error error =>
          have replayed := ih stack
          rw [computed] at replayed
          rw [replay_append_of_error replayed]
          rfl
  | binary op position left right ihLeft ihRight =>
      rw [Expression.calls, Expression.value, List.append_assoc]
      cases computedLeft : left.value with
      | error error =>
          have replayed := ihLeft stack
          rw [computedLeft] at replayed
          rw [replay_append_of_error replayed]
          rfl
      | ok leftValue =>
          have replayedLeft := ihLeft stack
          rw [computedLeft] at replayedLeft
          rw [replay_append_of_ok replayedLeft]
          cases computedRight : right.value with
          | error error =>
              have replayed := ihRight (stack.push leftValue)
              rw [computedRight] at replayed
              rw [replay_append_of_error replayed]
              rfl
          | ok rightValue =>
              have replayedRight := ihRight (stack.push leftValue)
              rw [computedRight] at replayedRight
              rw [replay_append_of_ok replayedRight]
              have applied := stack.apply_binary leftValue rightValue op position
              dsimp only
              cases result : op.apply leftValue rightValue position with
              | ok value =>
                  rw [result] at applied
                  rw [replay_apply_of_ok applied]
                  rfl
              | error error =>
                  rw [result] at applied
                  rw [replay_apply_of_error applied]
                  rfl
  | group opening body closing ih => exact ih stack

end ValueStack

theorem valueRun_of_derives {tokens : List (Token × Nat)} {expression : Expression}
    {ending : List Item} (derived : Derives .sum tokens expression) (ends : Ends ending) :
    (valueRun (streamOf tokens ++ ending)).answer
      = expression.value.mapError Failure.arithmetic := by
  have replayed := ValueStack.replay_calls {} expression
  cases computed : expression.value with
  | ok value =>
      rw [computed] at replayed
      obtain ⟨place, answered⟩ := run_of_replay_ok (β := Float) derived ends replayed
      exact answered
  | error error =>
      rw [computed] at replayed
      exact run_of_replay_error (β := Float) derived ends replayed

/-- **The machine computes the value of the tree.**  On tokens that are derived for a
tree, whatever their places and numbers, and with or without an end behind them, the
answer is the value of the tree, or the arithmetical error of the first of its nodes in
post-order that has no value. -/
theorem valueRun_computes_value (tokens : List (Token × Nat)) (expression : Expression)
    (derived : Derives .sum tokens expression) :
    (valueRun (streamOf tokens)).answer = expression.value.mapError Failure.arithmetic ∧
      ∀ position, (valueRun (endedStream tokens position)).answer
        = expression.value.mapError Failure.arithmetic := by
  refine ⟨?_, fun position => ?_⟩
  · have answered := valueRun_of_derives derived (.inl rfl)
    rwa [List.append_nil] at answered
  · rw [endedStream_eq]
    exact valueRun_of_derives derived (ends_endOfInput position)

/-- The tokens of `2*(6/0)-1%0`. -/
def twiceUndefinedTokens : List (Token × Nat) :=
  [(.number 2, 0), (.binary .mul, 1), (.opening, 2), (.number 6, 3), (.binary .div, 4),
    (.number 0, 5), (.closing, 6), (.binary .sub, 7), (.number 1, 8), (.binary .rem, 9),
    (.number 0, 10)]

/-- The tree of `2*(6/0)-1%0`, in which the division comes before the remainder. -/
def twiceUndefined : Expression :=
  .binary .sub 7
    (.binary .mul 1 (.number 2 0) (.group 2 (.binary .div 4 (.number 6 3) (.number 0 5)) 6))
    (.binary .rem 9 (.number 1 8) (.number 0 10))

theorem derives_twiceUndefined : Derives .sum twiceUndefinedTokens twiceUndefined := by
  have inside : Derives .sum [(.number 6, 3), (.binary .div, 4), (.number 0, 5)]
      (.binary .div 4 (.number 6 3) (.number 0 5)) :=
    .ofProduct (.multiply .div 4 rfl (.ofUnit (.number 6 3)) (.number 0 5))
  have left := Derives.multiply .mul 1 rfl (.ofUnit (.number 2 0)) (.group 2 6 inside)
  have right := Derives.multiply .rem 9 rfl (.ofUnit (.number 1 8)) (.number 0 10)
  exact .add .sub 7 rfl (.ofProduct left) right

/-- The answer for `2*(6/0)-1%0` is the division by zero, which comes first. -/
theorem valueRun_twiceUndefined :
    Derives .sum twiceUndefinedTokens twiceUndefined ∧
      (valueRun (streamOf twiceUndefinedTokens)).answer
        = .error (.arithmetic (.divisionByZero 4)) :=
  ⟨derives_twiceUndefined,
    (valueRun_computes_value _ _ derives_twiceUndefined).1.trans
      (congrArg (Except.mapError Failure.arithmetic)
        (rfl : twiceUndefined.value = .error (.divisionByZero 4)))⟩

end InfixArithmetic
