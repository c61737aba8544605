import InfixArithmetic.Proofs.Sketch.Grammar
import InfixArithmetic.Proofs.Sketch.Machine
import InfixArithmetic.Proofs.Machine.Run

/-!
# Runs over expressions

A run over tokens that form an expression makes the calls of the expression and
answers with what its operand side makes of them: the result, or the first failure
(`run_of_replay_ok`, `run_of_replay_error`).  A run over tokens that form none
answers with an error (`run_of_not_derives`).  This holds for every operand side,
and however the stream ends.
-/

namespace InfixArithmetic

set_option autoImplicit false

open OperandSide

variable {σ β : Type} [OperandSide σ β]

namespace Sketch

/-- The expression that a sketch and the tokens behind it form. -/
def parseFrom (sketch : Sketch) (tokens : List (Token × Nat)) : Option Expression :=
  (sketch.steps tokens).bind finish

theorem parseFrom_cons (sketch : Sketch) (token : Token) (position : Nat)
    (rest : List (Token × Nat)) :
    sketch.parseFrom ((token, position) :: rest)
      = (sketch.step token position).bind fun later => later.parseFrom rest :=
  Option.bind_assoc ..

/-- An expression that begins with a sketch begins with its calls. -/
theorem calls_parseFrom {sketch : Sketch} {tokens : List (Token × Nat)} {whole : Expression}
    (formed : sketch.parseFrom tokens = some whole) :
    ∃ added, whole.calls = sketch.calls ++ added := by
  obtain ⟨later, stepped, finished⟩ := Option.bind_eq_some_iff.mp formed
  obtain ⟨added, grown⟩ := calls_steps stepped
  exact ⟨added ++ later.newCalls .endOfInput 0, by
    rw [calls_finish finished 0, grown, List.append_assoc]⟩

end Sketch

namespace Machine.Follows

variable {origin : σ} {ending : List Item}

/-- If the calls of the expression succeed, the answer is the result. -/
theorem answer_of_replay_ok {tokens : List (Token × Nat)} {whole : Expression} {reached : σ}
    (ends : Ends ending) (replayed : replay origin whole.calls = .ok reached) :
    ∀ {machine : Machine σ} {sketch : Sketch}, machine.Follows origin sketch →
      sketch.parseFrom tokens = some whole → ∀ position : Nat,
      ∃ place, (runFrom (β := β) machine position (streamOf tokens ++ ending)).answer
        = (OperandSide.result reached place).1 := by
  induction tokens with
  | nil =>
      intro machine sketch follows formed position
      obtain ⟨place, answered⟩ := runFrom_of_ends (β := β) ends machine position
      exact ⟨place, answered.trans (follows.atEnd_of_replay_ok formed replayed place)⟩
  | cons placed rest ih =>
      obtain ⟨token, here⟩ := placed
      intro machine sketch follows formed position
      rw [Sketch.parseFrom_cons] at formed
      obtain ⟨later, stepped, formedLater⟩ := Option.bind_eq_some_iff.mp formed
      obtain ⟨added, grown⟩ := Sketch.calls_parseFrom formedLater
      rw [grown] at replayed
      obtain ⟨middle, replayedLater, -⟩ := exists_of_replay_append_ok replayed
      obtain ⟨next, accepted, followsNext⟩ :=
        follows.step_of_replay_ok (β := β) stepped replayedLater
      rw [← grown] at replayed
      obtain ⟨place, answered⟩ := ih followsNext formedLater here
      refine ⟨place, ?_⟩
      rw [streamOf, List.map_cons, List.cons_append,
        runFrom_of_none (congrArg Step.answer accepted), accepted]
      exact answered

/-- If a call of the expression fails, the answer is the first such failure. -/
theorem answer_of_replay_error {tokens : List (Token × Nat)} {whole : Expression}
    {failure : Failure} (ends : Ends ending)
    (replayed : replay origin whole.calls = .error failure) :
    ∀ {machine : Machine σ} {sketch : Sketch}, machine.Follows origin sketch →
      sketch.parseFrom tokens = some whole → ∀ position : Nat,
      (runFrom (β := β) machine position (streamOf tokens ++ ending)).answer
        = .error failure := by
  induction tokens with
  | nil =>
      intro machine sketch follows formed position
      obtain ⟨place, answered⟩ := runFrom_of_ends (β := β) ends machine position
      exact answered.trans (follows.atEnd_of_replay_error formed replayed place)
  | cons placed rest ih =>
      obtain ⟨token, here⟩ := placed
      intro machine sketch follows formed position
      rw [Sketch.parseFrom_cons] at formed
      obtain ⟨later, stepped, formedLater⟩ := Option.bind_eq_some_iff.mp formed
      rw [streamOf, List.map_cons, List.cons_append]
      cases replayedLater : replay origin later.calls with
      | ok middle =>
          obtain ⟨next, accepted, followsNext⟩ :=
            follows.step_of_replay_ok (β := β) stepped replayedLater
          rw [runFrom_of_none (congrArg Step.answer accepted), accepted]
          exact ih followsNext formedLater here
      | error earlier =>
          obtain ⟨added, grown⟩ := Sketch.calls_parseFrom formedLater
          rw [grown, replay_append_of_error replayedLater] at replayed
          cases replayed
          rw [runFrom_of_error (follows.step_of_replay_error stepped replayedLater)]

theorem answer_of_none {tokens : List (Token × Nat)} (ends : Ends ending)
    (noEnd : ∀ placed ∈ tokens, placed.1 ≠ .endOfInput) :
    ∀ {machine : Machine σ} {sketch : Sketch}, machine.Follows origin sketch →
      sketch.parseFrom tokens = none → ∀ position : Nat,
      ∃ failure, (runFrom (β := β) machine position (streamOf tokens ++ ending)).answer
        = .error failure := by
  induction tokens with
  | nil =>
      intro machine sketch follows unformed position
      obtain ⟨place, answered⟩ := runFrom_of_ends (β := β) ends machine position
      obtain ⟨failure, failed⟩ := follows.atEnd_of_none (β := β) unformed place
      exact ⟨failure, answered.trans failed⟩
  | cons placed rest ih =>
      obtain ⟨token, here⟩ := placed
      obtain ⟨notEnd, restNoEnd⟩ := List.forall_mem_cons.mp noEnd
      intro machine sketch follows unformed position
      rw [Sketch.parseFrom_cons] at unformed
      rw [streamOf, List.map_cons, List.cons_append]
      cases stepped : sketch.step token here with
      | none =>
          obtain ⟨failure, failed⟩ := follows.step_of_none (β := β) stepped notEnd
          exact ⟨failure, by rw [runFrom_of_error failed]⟩
      | some later =>
          rw [stepped] at unformed
          cases replayed : replay origin later.calls with
          | ok middle =>
              obtain ⟨next, accepted, followsNext⟩ :=
                follows.step_of_replay_ok (β := β) stepped replayed
              rw [runFrom_of_none (congrArg Step.answer accepted), accepted]
              exact ih restNoEnd followsNext unformed here
          | error failure =>
              have failed := follows.step_of_replay_error (β := β) stepped replayed
              exact ⟨failure, by rw [runFrom_of_error failed]⟩

end Machine.Follows

/-! ## Runs of a fresh machine -/

/-- **A run over an expression answers with the result of its calls.** -/
theorem run_of_replay_ok {tokens : List (Token × Nat)} {expression : Expression}
    {ending : List Item} {origin reached : σ} (derived : Derives .sum tokens expression)
    (ends : Ends ending) (replayed : replay origin expression.calls = .ok reached) :
    ∃ place, (run (β := β) origin (streamOf tokens ++ ending)).answer
      = (OperandSide.result reached place).1 :=
  Machine.Follows.answer_of_replay_ok ends replayed (Machine.follows_start origin)
    (Sketch.parse_eq_some_iff.mpr derived) 0

/-- **A run over an expression answers with the first failure of its calls.** -/
theorem run_of_replay_error {tokens : List (Token × Nat)} {expression : Expression}
    {ending : List Item} {origin : σ} {failure : Failure}
    (derived : Derives .sum tokens expression) (ends : Ends ending)
    (replayed : replay origin expression.calls = .error failure) :
    (run (β := β) origin (streamOf tokens ++ ending)).answer = .error failure :=
  Machine.Follows.answer_of_replay_error ends replayed (Machine.follows_start origin)
    (Sketch.parse_eq_some_iff.mpr derived) 0

/-- **A run over tokens that form no expression answers with an error.** -/
theorem run_of_not_derives {tokens : List (Token × Nat)} {ending : List Item} (origin : σ)
    (noEnd : ∀ placed ∈ tokens, placed.1 ≠ .endOfInput) (ends : Ends ending)
    (unformed : ¬ ∃ expression, Derives .sum tokens expression) :
    ∃ failure, (run (β := β) origin (streamOf tokens ++ ending)).answer = .error failure := by
  refine Machine.Follows.answer_of_none ends noEnd (Machine.follows_start origin) ?_ 0
  cases parsed : Sketch.parse tokens with
  | none => exact parsed
  | some expression => exact absurd ⟨expression, Sketch.parse_eq_some_iff.mp parsed⟩ unformed

end InfixArithmetic
