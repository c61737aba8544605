import InfixArithmetic.Proofs.Machine.Steps

/-!
# Histories of a machine

A machine can be given tokens in any order, and it goes on behind refusals, failures and the
end.  Its history keeps one turn for each token: the machine that it found, and the step that
came of it.

A token is a misfit when it is not what has to come: it starts an operand where an operator has
to come, or it stands behind an operand where one has to come.  Each of the three checks of a
step is made before anything else is done (`Machine.step_of_misplaced`).  So a misfit is refused
and leaves nothing behind, and a history without its misfits is the history of the tokens that
are left (`misplaced_tokens_leave_no_trace`).
-/

namespace InfixArithmetic

set_option autoImplicit false

variable {σ β : Type}

/-! ## Turns -/

/-- One token given to a machine. -/
structure Turn (σ β : Type) where
  /-- The machine that the token found. -/
  before : Machine σ
  token : Token
  position : Nat
  /-- What came of it. -/
  step : Step σ (Option β)

/-- The token of a turn with its place. -/
def Turn.placed (turn : Turn σ β) : Token × Nat :=
  (turn.token, turn.position)

variable [OperandSide σ β]

namespace Machine

/-- The turn of a token. -/
def turn (machine : Machine σ) (token : Token) (position : Nat) : Turn σ β where
  before := machine
  token := token
  position := position
  step := machine.step token position

/-- The turns of tokens, one behind the other. -/
def history (machine : Machine σ) : List (Token × Nat) → List (Turn σ β)
  | [] => []
  | (token, position) :: rest =>
      machine.turn token position :: (machine.step (β := β) token position).machine.history rest

@[simp] theorem history_nil (machine : Machine σ) : machine.history (β := β) [] = [] := rfl

theorem history_cons (machine : Machine σ) (token : Token) (position : Nat)
    (rest : List (Token × Nat)) :
    machine.history (β := β) ((token, position) :: rest)
      = machine.turn token position
        :: (machine.step (β := β) token position).machine.history rest :=
  rfl

theorem map_placed_history (machine : Machine σ) (tokens : List (Token × Nat)) :
    (machine.history (β := β) tokens).map Turn.placed = tokens := by
  induction tokens generalizing machine with
  | nil => rfl
  | cons placed rest ih => exact congrArg (placed :: ·) (ih _)

theorem map_step_history (machine : Machine σ) (tokens : List (Token × Nat)) :
    (machine.history (β := β) tokens).map Turn.step = machine.steps tokens := by
  induction tokens generalizing machine with
  | nil => rfl
  | cons placed rest ih => exact congrArg (_ :: ·) (ih _)

end Machine

/-! ## Misfits -/

/-- The tokens that do not fit what has to come. -/
inductive Misfit : Expectation → Token → Prop where
  | number (value : Float) : Misfit .operator (.number value)
  | opening : Misfit .operator .opening
  | sign (polarity : Sign) : Misfit .operator (.sign polarity)
  | binary (op : BinaryOp) : Misfit .operand (.binary op)
  | closing : Misfit .operand .closing
  | endOfInput : Misfit .operand .endOfInput

theorem misfit_iff {expectation : Expectation} {token : Token} :
    Misfit expectation token ↔ expectation ≠ token.place := by
  constructor
  · rintro (_ | _ | _ | _ | _ | _) <;> exact nofun
  · intro misplaced
    cases expectation with
    | operand =>
        cases token with
        | number | opening | sign => exact absurd rfl misplaced
        | binary op => exact .binary op
        | closing => exact .closing
        | endOfInput => exact .endOfInput
    | operator =>
        cases token with
        | number value => exact .number value
        | opening => exact .opening
        | sign polarity => exact .sign polarity
        | binary | closing | endOfInput => exact absurd rfl misplaced

instance (expectation : Expectation) (token : Token) : Decidable (Misfit expectation token) :=
  decidable_of_iff _ misfit_iff.symm

/-- Whether the token of a turn was what had to come. -/
def Turn.fits (turn : Turn σ β) : Bool :=
  !decide (Misfit turn.before.expectation turn.token)

namespace Machine

/-- **A misfit is refused, no call is made and nothing changes.** -/
theorem step_of_misfit {machine : Machine σ} {token : Token}
    (misfit : Misfit machine.expectation token) (position : Nat) :
    machine.step (β := β) token position
      = { answer := .error (.grammar (token.misplacement machine.latest position))
          calls := []
          machine := machine } :=
  step_of_misplaced machine token position (misfit_iff.mp misfit)

/-- Of placed tokens those that are no misfits when their turn comes. -/
def fitting (machine : Machine σ) (tokens : List (Token × Nat)) : List (Token × Nat) :=
  ((machine.history (β := β) tokens).filter Turn.fits).map Turn.placed

theorem fitting_sublist (machine : Machine σ) (tokens : List (Token × Nat)) :
    (machine.fitting (β := β) tokens).Sublist tokens := by
  have part : ((machine.history (β := β) tokens).filter Turn.fits).Sublist
      (machine.history tokens) :=
    List.filter_sublist
  have placed := part.map Turn.placed
  rwa [map_placed_history] at placed

theorem filter_fits_of_misfit {machine : Machine σ} {token : Token}
    (misfit : Misfit machine.expectation token) (position : Nat) (rest : List (Token × Nat)) :
    (machine.history (β := β) ((token, position) :: rest)).filter Turn.fits
      = (machine.history (β := β) rest).filter Turn.fits := by
  have unfit : ¬ (machine.turn (β := β) token position).fits = true := by
    simp [Turn.fits, turn, misfit]
  rw [history_cons, List.filter_cons_of_neg unfit, step_of_misfit misfit]

theorem filter_fits_of_not_misfit {machine : Machine σ} {token : Token}
    (fits : ¬ Misfit machine.expectation token) (position : Nat) (rest : List (Token × Nat)) :
    (machine.history (β := β) ((token, position) :: rest)).filter Turn.fits
      = machine.turn token position
        :: ((machine.step (β := β) token position).machine.history rest).filter Turn.fits := by
  have fit : (machine.turn (β := β) token position).fits = true := by
    simp [Turn.fits, turn, fits]
  rw [history_cons, List.filter_cons_of_pos fit]

/-- **Without its misfits a history is the history of the other tokens**, and it ends with the
same machine. -/
theorem history_fitting (machine : Machine σ) (tokens : List (Token × Nat)) :
    machine.history (β := β) (machine.fitting (β := β) tokens)
        = (machine.history (β := β) tokens).filter Turn.fits ∧
      machine.after (β := β) (machine.fitting (β := β) tokens)
        = machine.after (β := β) tokens := by
  induction tokens generalizing machine with
  | nil => exact ⟨rfl, rfl⟩
  | cons placed rest ih =>
      obtain ⟨token, position⟩ := placed
      by_cases misfit : Misfit machine.expectation token
      · obtain ⟨sameHistory, sameMachine⟩ := ih machine
        rw [fitting, filter_fits_of_misfit misfit, after, step_of_misfit misfit]
        exact ⟨sameHistory, sameMachine⟩
      · obtain ⟨sameHistory, sameMachine⟩ := ih (machine.step (β := β) token position).machine
        rw [fitting, filter_fits_of_not_misfit misfit, List.map_cons]
        exact ⟨congrArg (machine.turn token position :: ·) sameHistory, sameMachine⟩

end Machine

/-- **Misplaced tokens leave no trace.**  Whatever a machine has been through, a token that does
not fit what has to come is answered with an error, makes no call and leaves the machine as it
was.  So all such tokens can be left out of those that a machine is given: each of the others
finds the same machine, is answered alike and makes the same calls, and the machine behind them
is the same. -/
theorem misplaced_tokens_leave_no_trace {σ β : Type} [OperandSide σ β] (side : σ)
    (tokens : List (Token × Nat)) :
    (∀ token position, Misfit ((Machine.start side).after tokens).expectation token →
      (∃ error, (((Machine.start side).after tokens).step (β := β) token position).answer
        = .error error) ∧
      (((Machine.start side).after tokens).step (β := β) token position).calls = [] ∧
      (((Machine.start side).after tokens).step (β := β) token position).machine
        = (Machine.start side).after tokens) ∧
    ((Machine.start side).fitting tokens).Sublist tokens ∧
    (Machine.start side).history (β := β) ((Machine.start side).fitting tokens)
      = ((Machine.start side).history tokens).filter Turn.fits ∧
    (Machine.start side).after ((Machine.start side).fitting tokens)
      = (Machine.start side).after tokens := by
  refine ⟨fun token position misfit => ?_, (Machine.start side).fitting_sublist tokens,
    (Machine.start side).history_fitting tokens⟩
  rw [Machine.step_of_misfit misfit]
  exact ⟨⟨_, rfl⟩, rfl, rfl⟩

/-- The tokens of `1 2/)0+`: a number where an operator has to come, a closing parenthesis where
an operand has to come, and an addition that has the division by zero applied. -/
def misplacedTokens : List (Token × Nat) :=
  [(.number 1, 0), (.number 2, 2), (.binary .div, 3), (.closing, 4), (.number 0, 5),
    (.binary .add, 6)]

/-- The second number and the parenthesis can be left out, and the division is still applied and
fails.  Behind that failure an operator has to come, so one more number is a misfit as well. -/
theorem misplaced_tokens_leave_no_trace_behindFailure :
    (Machine.start ({} : ValueStack)).fitting misplacedTokens
        = [(.number 1, 0), (.binary .div, 3), (.number 0, 5), (.binary .add, 6)] ∧
      (Machine.start ({} : ValueStack)).history
          [(.number 1, 0), (.binary .div, 3), (.number 0, 5), (.binary .add, 6)]
        = ((Machine.start ({} : ValueStack)).history misplacedTokens).filter Turn.fits ∧
      Misfit ((Machine.start ({} : ValueStack)).after misplacedTokens).expectation (.number 3) ∧
      (((Machine.start ({} : ValueStack)).after misplacedTokens).step (.number 3) 7).calls
        = [] := by
  have left : (Machine.start ({} : ValueStack)).fitting misplacedTokens
      = [(.number 1, 0), (.binary .div, 3), (.number 0, 5), (.binary .add, 6)] := by
    decide +kernel
  have misfit : Misfit ((Machine.start ({} : ValueStack)).after misplacedTokens).expectation
      (.number 3) := by
    decide +kernel
  obtain ⟨rejected, -, sameHistory, -⟩ :=
    misplaced_tokens_leave_no_trace ({} : ValueStack) misplacedTokens
  rw [left] at sameHistory
  exact ⟨left, sameHistory, misfit, (rejected _ 7 misfit).2.1⟩

end InfixArithmetic
