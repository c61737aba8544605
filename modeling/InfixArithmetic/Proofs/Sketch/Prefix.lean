import InfixArithmetic.Proofs.Machine.Steps
import InfixArithmetic.Proofs.Sketch.Run

/-!
# Beginnings of expressions

Tokens begin an expression when some tokens behind them make it one.  A sketch of what was
read always begins one: if an operand is missing, any number will do, and then every open
parenthesis can be closed (`Sketch.exists_completion`).  So a machine that has accepted
tokens has read the beginning of an expression (`begins_of_accepts`).

On the other hand a token that the sketch does not take begins no expression with the
tokens before it, whatever comes behind it.  Where nothing can fail but the grammar, the
machine refuses exactly these tokens (`step_fails_iff`), and it refuses the end exactly
where no expression is complete (`end_fails_iff`).
-/

namespace InfixArithmetic

set_option autoImplicit false

open OperandSide InfixArithmetic.Frame

/-! ## Completing a sketch -/

namespace Sketch

theorem length_settle_le (rank : Rank) (frames : List Frame) (operand : Expression) :
    (settle rank frames operand).1.length ≤ frames.length := by
  have kept := congrArg List.length (pending_settle rank frames operand)
  have fewer := (List.dropWhile_suffix rank.reaches (l := frames.map pending)).length_le
  rw [List.length_map] at kept fewer
  rwa [kept]

/-- Behind an operand the open parentheses can be closed one after another. -/
theorem exists_closing (frames : List Frame) (operand : Expression) :
    ∃ behind whole, (⟨frames, some operand⟩ : Sketch).parseFrom behind = some whole := by
  have shorter := length_settle_le .sum frames operand
  have stops := settle_sum_cases frames operand
  cases settled : settle .sum frames operand with
  | mk rest body =>
      rw [settled] at shorter stops
      obtain rfl | ⟨opening, outer, rfl⟩ := stops
      · refine ⟨[], body, ?_⟩
        show finish _ = _
        rw [finish, Option.map_some, settled]
      · obtain ⟨behind, whole, formed⟩ := exists_closing outer (.group opening body 0)
        refine ⟨(.closing, 0) :: behind, whole, ?_⟩
        simp only [parseFrom_cons, step, settled]
        exact formed
termination_by frames.length

/-- **Whatever was read so far can be completed to an expression.** -/
theorem exists_completion (sketch : Sketch) :
    ∃ behind whole, sketch.parseFrom behind = some whole := by
  obtain ⟨frames, operand⟩ := sketch
  cases operand with
  | some operand => exact exists_closing frames operand
  | none =>
      obtain ⟨behind, whole, formed⟩ := exists_closing frames (.number 0 0)
      refine ⟨(.number 0, 0) :: behind, whole, ?_⟩
      rw [parseFrom_cons]
      exact formed

theorem parse_append {front : List (Token × Nat)} {sketch : Sketch}
    (stepped : ({} : Sketch).steps front = some sketch) (back : List (Token × Nat)) :
    parse (front ++ back) = sketch.parseFrom back := by
  rw [parse, steps_append, stepped]
  rfl

end Sketch

/-! ## The machine on beginnings -/

namespace Machine

section AnySide

variable {σ β : Type} [OperandSide σ β]

theorem Follows.step_of_accepted {machine : Machine σ} {origin : σ} {sketch : Sketch}
    (follows : machine.Follows origin sketch) {token : Token} {position : Nat}
    (accepted : (machine.step (β := β) token position).answer = .ok none) :
    ∃ later, sketch.step token position = some later ∧
      (machine.step (β := β) token position).machine.Follows origin later := by
  cases stepped : sketch.step token position with
  | none =>
      obtain ⟨failure, failed⟩ :=
        follows.step_of_none (β := β) stepped (ne_endOfInput_of_accepted accepted)
      rw [failed] at accepted
      cases accepted
  | some later =>
      cases replayed : replay origin later.calls with
      | ok reached =>
          obtain ⟨next, answered, followsNext⟩ :=
            follows.step_of_replay_ok (β := β) stepped replayed
          exact ⟨later, rfl, by rwa [answered]⟩
      | error failure =>
          rw [follows.step_of_replay_error (β := β) stepped replayed] at accepted
          cases accepted

/-- Accepted tokens are taken by the sketch, and the machine follows it. -/
theorem Follows.after {machine : Machine σ} {origin : σ} {sketch : Sketch}
    (follows : machine.Follows origin sketch) {tokens : List (Token × Nat)}
    (accepts : machine.Accepts tokens) :
    ∃ later, sketch.steps tokens = some later ∧ (machine.after tokens).Follows origin later := by
  induction tokens generalizing machine sketch with
  | nil => exact ⟨sketch, rfl, follows⟩
  | cons placed rest ih =>
      obtain ⟨token, position⟩ := placed
      obtain ⟨first, others⟩ := accepts_cons.mp accepts
      obtain ⟨next, stepped, followsNext⟩ := follows.step_of_accepted first
      obtain ⟨later, steppedLater, followsLater⟩ := ih followsNext others
      refine ⟨later, ?_, followsLater⟩
      rw [Sketch.steps, stepped]
      exact steppedLater

/-- **Accepted tokens begin an expression.** -/
theorem begins_of_accepts {side : σ} {front : List (Token × Nat)}
    (accepts : (start side).Accepts front) :
    ∃ behind expression, Derives .sum (front ++ behind) expression := by
  obtain ⟨sketch, stepped, -⟩ := (follows_start side).after accepts
  obtain ⟨behind, whole, formed⟩ := sketch.exists_completion
  refine ⟨behind, whole, Sketch.parse_eq_some_iff.mp ?_⟩
  rw [Sketch.parse_append stepped, formed]

end AnySide

/-! ## Refusals of a page -/

section Page

variable {page : ReversePolish} {front : List (Token × Nat)} {token : Token}

/-- **A token is refused exactly when no expression goes on with it.** -/
theorem step_fails_iff (accepts : (start page).Accepts front) (notEnd : token ≠ .endOfInput)
    (position : Nat) :
    (∃ failure, (((start page).after front).step (β := List Token) token position).answer
        = .error failure) ↔
      ¬ ∃ behind expression,
        Derives .sum (front ++ (token, position) :: behind) expression := by
  obtain ⟨sketch, stepped, follows⟩ := (follows_start page).after accepts
  constructor
  · rintro ⟨failure, failed⟩ ⟨behind, expression, derived⟩
    have parsed := Sketch.parse_eq_some_iff.mpr derived
    rw [Sketch.parse_append stepped, Sketch.parseFrom_cons] at parsed
    obtain ⟨later, taken, -⟩ := Option.bind_eq_some_iff.mp parsed
    obtain ⟨written, replayed⟩ := page.exists_replay later.calls
    obtain ⟨next, accepted, -⟩ := follows.step_of_replay_ok (β := List Token) taken replayed
    rw [accepted] at failed
    cases failed
  · intro unviable
    cases taken : sketch.step token position with
    | none => exact follows.step_of_none (β := List Token) taken notEnd
    | some later =>
        obtain ⟨behind, whole, formed⟩ := later.exists_completion
        refine absurd ⟨behind, whole, Sketch.parse_eq_some_iff.mp ?_⟩ unviable
        rw [Sketch.parse_append stepped, Sketch.parseFrom_cons, taken]
        exact formed

/-- **The end is refused exactly when no expression ends there.** -/
theorem end_fails_iff (accepts : (start page).Accepts front) (position : Nat) :
    (∃ failure, (((start page).after front).step (β := List Token) .endOfInput position).answer
        = .error failure) ↔
      ¬ ∃ expression, Derives .sum front expression := by
  obtain ⟨sketch, stepped, follows⟩ := (follows_start page).after accepts
  have parsed : Sketch.parse front = sketch.finish := by
    rw [Sketch.parse, stepped]
    rfl
  rw [step_endOfInput, Step.map]
  constructor
  · rintro ⟨failure, failed⟩ ⟨expression, derived⟩
    have finished := parsed.symm.trans (Sketch.parse_eq_some_iff.mpr derived)
    obtain ⟨written, replayed⟩ := page.exists_replay expression.calls
    have answered := follows.atEnd_of_replay_ok (β := List Token) finished replayed position
    rw [answered] at failed
    cases failed
  · intro unformed
    cases finished : sketch.finish with
    | none =>
        obtain ⟨failure, failed⟩ := follows.atEnd_of_none (β := List Token) finished position
        exact ⟨failure, by rw [failed]⟩
    | some whole =>
        exact absurd ⟨whole, Sketch.parse_eq_some_iff.mp (parsed.trans finished)⟩ unformed

end Page

end Machine

end InfixArithmetic
