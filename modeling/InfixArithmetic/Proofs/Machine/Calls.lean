import InfixArithmetic.Proofs.Machine.History

/-!
# The calls of a step

A step tells which calls it made.  An operator that becomes pending, a closing parenthesis and
the end make those of the entries that they have applied, the entry that fails included
(`calls_unwind_of_ok`, `calls_unwind_of_error`).

The calls told account for the operand side: the side behind a step is what its calls leave
behind when they are made one after another, whatever each is answered (`Machine.side_step`).  So
it is along a whole history, behind refusals, failures and the end (`Machine.side_after`).
-/

namespace InfixArithmetic

set_option autoImplicit false

variable {σ β : Type} [OperandSide σ β]

/-! ## What the calls leave -/

namespace OperandSide

theorem perform_apply_of_ok {side later : σ} {entry : Pending}
    (applied : apply side entry = (.ok (), later)) :
    perform side (.apply entry) = (.ok none, later) := by
  simp only [perform, applied]

theorem perform_apply_of_error {side later : σ} {entry : Pending} {failure : Failure}
    (applied : apply side entry = (.error failure, later)) :
    perform side (.apply entry) = (.error failure, later) := by
  simp only [perform, applied]

theorem state_perform_result (state : σ) (position : Nat) :
    (perform state (.result position)).2 = (result state position).2 := by
  rw [perform]
  cases result state position with
  | mk answer later => cases answer <;> rfl

/-- The state behind calls that are made one after another, whatever is answered. -/
def performed (state : σ) (calls : List Call) : σ :=
  calls.foldl (fun state call => (perform state call).2) state

theorem performed_append (state : σ) (front back : List Call) :
    performed state (front ++ back) = performed (performed state front) back :=
  List.foldl_append

end OperandSide

open OperandSide

/-! ## Unwinding -/

theorem calls_unwind_of_ok {test : Pending → Bool} {side later : σ} {top : Pending}
    (passes : test top = true) (applied : apply side top = (.ok (), later))
    {below : List Pending} :
    (unwind test side (top :: below)).calls = .apply top :: (unwind test later below).calls := by
  simp only [unwind, if_pos passes, applied]
  rfl

theorem calls_unwind_of_error {test : Pending → Bool} {side later : σ} {top : Pending}
    {failure : Failure} (passes : test top = true)
    (applied : apply side top = (.error failure, later)) {below : List Pending} :
    (unwind test side (top :: below)).calls = [.apply top] := by
  simp only [unwind, if_pos passes, applied]
  rfl

/-- An entry that fails is the last one applied, and what it leaves is left. -/
theorem side_unwind (test : Pending → Bool) (side : σ) (waiting : List Pending) :
    (unwind test side waiting).side = performed side (unwind test side waiting).calls := by
  induction waiting generalizing side with
  | nil => rfl
  | cons top below ih =>
      by_cases passes : test top = true
      · cases applied : apply side top with
        | mk answer later =>
            cases answer with
            | ok =>
                rw [calls_unwind_of_ok passes applied, performed, List.foldl_cons,
                  perform_apply_of_ok applied, unwind, if_pos passes, applied]
                exact ih later
            | error failure =>
                rw [calls_unwind_of_error passes applied, performed, List.foldl_cons,
                  perform_apply_of_error applied, unwind, if_pos passes, applied]
                rfl
      · rw [unwind, if_neg passes]
        rfl

namespace Machine

variable (machine : Machine σ)

/-! ## Steps -/

theorem calls_takeOperator (token : Token) (position : Nat) :
    (machine.takeOperator (β := β) token position).calls
      = (unwind (·.goesBefore (.of token position)) machine.side machine.waiting).calls := by
  simp only [takeOperator]
  split <;> rfl

theorem calls_leaveGroup (position : Nat) :
    (machine.leaveGroup (β := β) position).calls
      = (unwind (!·.isBoundary) machine.side machine.waiting).calls := by
  simp only [leaveGroup]
  split <;> rfl

theorem calls_conclude_of_replay_error {failure : Failure} {position : Nat}
    (replayed : replay machine.side machine.callsInside = .error failure) :
    (machine.conclude (β := β) position).calls
      = (unwind (!·.isBoundary) machine.side machine.waiting).calls := by
  simp only [conclude, unwind_of_replay_error replayed]
  rfl

theorem side_takeOperator (token : Token) (position : Nat) :
    (machine.takeOperator (β := β) token position).machine.side
      = performed machine.side (machine.takeOperator (β := β) token position).calls := by
  rw [calls_takeOperator, ← side_unwind]
  simp only [takeOperator]
  split <;> rfl

theorem side_leaveGroup (position : Nat) :
    (machine.leaveGroup (β := β) position).machine.side
      = performed machine.side (machine.leaveGroup (β := β) position).calls := by
  rw [calls_leaveGroup, ← side_unwind]
  simp only [leaveGroup]
  split <;> rfl

theorem side_conclude (position : Nat) :
    (machine.conclude (β := β) position).machine.side
      = performed machine.side (machine.conclude (β := β) position).calls := by
  have unwound := side_unwind (!·.isBoundary) machine.side machine.waiting
  simp only [conclude]
  split
  · exact unwound
  · exact unwound
  · rw [performed_append, ← unwound]
    exact (state_perform_result _ position).symm

/-- **The side behind a step is what the calls of the step leave behind**, whatever the token and
however it is answered. -/
theorem side_step (token : Token) (position : Nat) :
    (machine.step (β := β) token position).machine.side
      = performed machine.side (machine.step (β := β) token position).calls := by
  by_cases placed : machine.expectation = token.place
  · rw [step_of_placed placed]
    cases token with
    | number | opening => rfl
    | sign | binary => exact machine.side_takeOperator _ position
    | closing => exact machine.side_leaveGroup position
    | endOfInput => exact machine.side_conclude position
  · rw [step_of_misplaced machine token position placed]
    rfl

/-! ## Histories -/

/-- **The side behind any tokens is what the calls of their history leave behind.** -/
theorem side_after (tokens : List (Token × Nat)) :
    (machine.after (β := β) tokens).side
      = performed machine.side ((machine.history (β := β) tokens).flatMap (·.step.calls)) := by
  induction tokens generalizing machine with
  | nil => rfl
  | cons placed rest ih =>
      obtain ⟨token, position⟩ := placed
      rw [history_cons, List.flatMap_cons, performed_append, after, ih]
      exact congrArg (performed · _) (machine.side_step token position)

end Machine

end InfixArithmetic
