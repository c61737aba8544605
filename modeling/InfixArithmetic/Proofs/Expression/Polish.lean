import InfixArithmetic.Proofs.OperandSide.Carries
import InfixArithmetic.Proofs.Sketch.Run

/-!
# The machine decides the grammar

Without arithmetic nothing can fail but the grammar.  A page takes the calls of an
expression and holds its post-order behind what it held before
(`ReversePolish.replay_calls`), so the run that writes the reverse Polish order
succeeds exactly on the tokens that the grammar derives, and what it writes is the
post-order of their one tree.
-/

namespace InfixArithmetic

set_option autoImplicit false

open OperandSide

namespace Expression

/-- An expression is one operand more than there was. -/
theorem carries_calls (expression : Expression) (count : Nat) :
    Carries count expression.calls (count + 1) := by
  induction expression generalizing count with
  | number value position => exact .take value position (.none _)
  | signed polarity position operand ih =>
      exact (ih count).append (.sign polarity position (.none _))
  | binary op position left right ihLeft ihRight =>
      have operands := (ihLeft count).append (ihRight (count + 1))
      exact operands.append (.binary op position (.none _))
  | group opening body closing ih => exact ih count

/-- What its calls leave on a page is its post-order. -/
theorem written_calls (expression : Expression) :
    expression.calls.flatMap Call.written = expression.postorder := by
  induction expression with
  | number value position => rfl
  | signed polarity position operand ih =>
      rw [calls, postorder, List.flatMap_append, ih]
      rfl
  | binary op position left right ihLeft ihRight =>
      rw [calls, postorder, List.flatMap_append, List.flatMap_append, ihLeft, ihRight]
      rfl
  | group opening body closing ih => exact ih

end Expression

/-- The calls of an expression write its post-order. -/
theorem ReversePolish.replay_calls (page : ReversePolish) (expression : Expression) :
    ∃ later : ReversePolish, replay page expression.calls = .ok later ∧
      later.tokens = page.tokens ++ expression.postorder := by
  rw [← expression.written_calls]
  exact replay_of_carries (expression.carries_calls 0) page

theorem polishRun_of_derives {tokens : List (Token × Nat)} {expression : Expression}
    {ending : List Item} (derived : Derives .sum tokens expression) (ends : Ends ending) :
    (polishRun (streamOf tokens ++ ending)).answer = .ok expression.postorder := by
  obtain ⟨page, replayed, written⟩ := ReversePolish.replay_calls {} expression
  obtain ⟨place, answered⟩ := run_of_replay_ok (β := List Token) derived ends replayed
  rw [polishRun, answered]
  exact congrArg Except.ok written

theorem derives_of_polishRun {tokens : List (Token × Nat)} {ending : List Item}
    {written : List Token} (noEnd : ∀ placed ∈ tokens, placed.1 ≠ .endOfInput)
    (ends : Ends ending)
    (answered : (polishRun (streamOf tokens ++ ending)).answer = .ok written) :
    ∃ expression, Derives .sum tokens expression := by
  refine Classical.byContradiction fun unformed => ?_
  obtain ⟨failure, failed⟩ :=
    run_of_not_derives (β := List Token) ({} : ReversePolish) noEnd ends unformed
  rw [polishRun, failed] at answered
  cases answered

/-- **The machine accepts what the grammar derives, and writes the post-order of its one
tree.**  The tokens hold no end of the input but the one that is put behind them. -/
theorem polishRun_decides_grammar (tokens : List (Token × Nat)) (position : Nat)
    (noEnd : ∀ placed ∈ tokens, placed.1 ≠ .endOfInput) :
    ((∃ written, (polishRun (endedStream tokens position)).answer = .ok written) ↔
        ∃ expression, Derives .sum tokens expression) ∧
      ∀ expression, Derives .sum tokens expression →
        (∀ other, Derives .sum tokens other → other = expression) ∧
          (polishRun (endedStream tokens position)).answer = .ok expression.postorder := by
  rw [endedStream_eq]
  have ends := ends_endOfInput position
  refine ⟨⟨?_, ?_⟩, ?_⟩
  · rintro ⟨written, answered⟩
    exact derives_of_polishRun noEnd ends answered
  · rintro ⟨expression, derived⟩
    exact ⟨expression.postorder, polishRun_of_derives derived ends⟩
  · intro expression derived
    exact ⟨fun other derivedOther => derivedOther.unique derived,
      polishRun_of_derives derived ends⟩

/-- The tokens of `-(2+3)*4`. -/
def negatedGroupTokens : List (Token × Nat) :=
  [(.sign .minus, 0), (.opening, 1), (.number 2, 2), (.binary .add, 3), (.number 3, 4),
    (.closing, 5), (.binary .mul, 6), (.number 4, 7)]

/-- The sign stands before the group, and the product takes the signed group as its
left operand. -/
theorem derives_negatedGroup :
    Derives .sum negatedGroupTokens
      (.binary .mul 6
        (.signed .minus 0 (.group 1 (.binary .add 3 (.number 2 2) (.number 3 4)) 5))
        (.number 4 7)) := by
  have two : Derives .sum [(.number 2, 2)] (.number 2 2) := .ofProduct (.ofUnit (.number 2 2))
  have three : Derives .product [(.number 3, 4)] (.number 3 4) := .ofUnit (.number 3 4)
  have negated := Derives.signed .minus 0 (.group 1 5 (.add .add 3 rfl two three))
  exact .ofProduct (.multiply .mul 6 rfl (.ofUnit negated) (.number 4 7))

/-- The post-order of `-(2+3)*4` negates the sum before it multiplies. -/
theorem polishRun_negatedGroup :
    (∀ placed ∈ negatedGroupTokens, placed.1 ≠ .endOfInput) ∧
      (polishRun (endedStream negatedGroupTokens 8)).answer
        = .ok [.number 2, .number 3, .binary .add, .sign .minus, .number 4, .binary .mul] := by
  have noEnd : ∀ placed ∈ negatedGroupTokens, placed.1 ≠ .endOfInput := by
    simp [negatedGroupTokens]
  exact ⟨noEnd, ((polishRun_decides_grammar _ 8 noEnd).2 _ derives_negatedGroup).2⟩

end InfixArithmetic
