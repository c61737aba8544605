import Mathlib.Data.List.Basic
import InfixArithmetic.Proofs.Machine.Calls

/-!
# No operator is lost

An operator that a machine accepts is handed to the operand side once, or it is still pending:
it is not lost, not handed over twice, and it keeps its token and its place.  This holds of any
tokens in any order, behind refusals, failures of the arithmetic and the end, and for every
operand side, though a step can stop at any of the entries that it has applied.  Entries leave
the stack in the order in which they are handed over, the one that fails included, and what is
not reached stays (`applied_append_waiting`); an incoming operator joins them only when none
has failed; and what a closing parenthesis and the end take off the stack without handing it
over is a boundary.  From what one step keeps (`Machine.step_conserves`) a whole history follows
by induction (`Machine.history_conserves`).

Numbers never wait.  An accepted number is taken at once, and nothing else is
(`Machine.taken_step`).

What has been handed over and taken is read off the calls that the steps tell of, and what these
calls leave behind is the operand side (`Machine.side_after`).
-/

namespace InfixArithmetic

set_option autoImplicit false

variable {σ β : Type}

/-! ## What calls hand over -/

/-- The entry that a call applies. -/
def Call.applied? : Call → Option Pending
  | .apply entry => some entry
  | .take _ _ | .result _ => none

/-- The number that a call takes, with its place. -/
def Call.taken? : Call → Option (Float × Nat)
  | .take value position => some (value, position)
  | .apply _ | .result _ => none

theorem filterMap_applied_calls (unwinding : Unwinding σ) :
    unwinding.calls.filterMap Call.applied? = unwinding.applied := by
  rw [Unwinding.calls, List.filterMap_map]
  exact List.filterMap_some

theorem filterMap_taken_calls (unwinding : Unwinding σ) :
    unwinding.calls.filterMap Call.taken? = [] := by
  rw [Unwinding.calls, List.filterMap_map, List.filterMap_eq_nil_iff]
  intro entry _
  rfl

/-! ## What is accepted -/

/-- Whether a token is a sign or a binary operator. -/
def Token.isOperator : Token → Bool
  | .sign _ | .binary _ => true
  | .number _ | .opening | .closing | .endOfInput => false

/-- What a step was given, if it accepts it. -/
def Step.accepting {α γ : Type} (step : Step σ α) (given : γ) : Option γ :=
  match step.answer with
  | .ok _ => some given
  | .error _ => none

/-- The operator of a turn with its place, if it was accepted. -/
def Turn.operator? (turn : Turn σ β) : Option Pending :=
  if turn.token.isOperator then turn.step.accepting (.of turn.token turn.position) else none

/-- The number of a turn with its place, if it was accepted. -/
def Turn.number? (turn : Turn σ β) : Option (Float × Nat) :=
  match turn.token with
  | .number value => turn.step.accepting (value, turn.position)
  | .binary _ | .sign _ | .opening | .closing | .endOfInput => none

/-- The operators that wait on a stack, without the parentheses between them. -/
def pendingOperators (waiting : List Pending) : List Pending :=
  waiting.filter (!·.isBoundary)

theorem pendingOperators_cons_of_boundary {boundary : Pending}
    (isBoundary : boundary.isBoundary = true) (below : List Pending) :
    pendingOperators (boundary :: below) = pendingOperators below :=
  List.filter_cons_of_neg (by simp [isBoundary])

theorem pendingOperators_cons {entry : Pending} (inside : entry.isBoundary = false)
    (below : List Pending) :
    pendingOperators (entry :: below) = entry :: pendingOperators below :=
  List.filter_cons_of_pos (by simp [inside])

/-! ## Unwinding -/

section Unwind

variable [OperandSide σ β] {test : Pending → Bool}

/-- **What is applied and what still waits is what has waited**, in the same order, whether an
entry fails or not. -/
theorem applied_append_waiting (side : σ) (waiting : List Pending) :
    (unwind test side waiting).applied ++ (unwind test side waiting).waiting = waiting := by
  induction waiting generalizing side with
  | nil => rfl
  | cons top below ih =>
      rw [unwind]
      split
      · cases OperandSide.apply side top with
        | mk answer later =>
            cases answer with
            | ok => exact congrArg (top :: ·) (ih later)
            | error failure => rfl
      · rfl

theorem forall_mem_applied (side : σ) (waiting : List Pending) :
    ∀ entry ∈ (unwind test side waiting).applied, test entry = true := by
  induction waiting generalizing side with
  | nil => exact List.forall_mem_nil _
  | cons top below ih =>
      rw [unwind]
      split
      · cases OperandSide.apply side top with
        | mk answer later =>
            cases answer with
            | ok => exact List.forall_mem_cons.mpr ⟨‹_›, ih later⟩
            | error failure => exact List.forall_mem_singleton.mpr ‹_›
      · exact List.forall_mem_nil _

/-- Unless an entry fails, what waits on top has not passed the test. -/
theorem not_passes_of_unwind (side : σ) (waiting : List Pending)
    (succeeds : (unwind test side waiting).failure = none) {top : Pending} {below : List Pending}
    (left : (unwind test side waiting).waiting = top :: below) : ¬ test top = true := by
  induction waiting generalizing side with
  | nil => cases left
  | cons first rest ih =>
      rw [unwind] at succeeds left
      split at succeeds
      · rw [if_pos ‹_›] at left
        cases applied : OperandSide.apply side first with
        | mk answer later =>
            rw [applied] at succeeds left
            cases answer with
            | ok => exact ih later succeeds left
            | error failure => cases succeeds
      · rw [if_neg ‹_›] at left
        cases left
        assumption

/-- No operator is lost when entries inside a group are applied. -/
theorem applied_append_pendingOperators
    (inside : ∀ entry, test entry = true → entry.isBoundary = false) (side : σ)
    (waiting : List Pending) :
    (unwind test side waiting).applied
        ++ pendingOperators (unwind test side waiting).waiting
      = pendingOperators waiting := by
  have applied : pendingOperators (unwind test side waiting).applied
      = (unwind test side waiting).applied := by
    refine List.filter_eq_self.mpr ?_
    intro entry member
    rw [inside entry (forall_mem_applied side waiting entry member)]
    rfl
  have whole : pendingOperators ((unwind test side waiting).applied
      ++ (unwind test side waiting).waiting) = pendingOperators waiting :=
    congrArg pendingOperators (applied_append_waiting side waiting)
  rw [pendingOperators, List.filter_append] at whole
  rw [← whole, ← pendingOperators, ← pendingOperators, applied]

/-- A boundary that is left on top when everything above it is applied is no operator. -/
theorem applied_append_below_boundary (side : σ) {waiting : List Pending}
    (succeeds : (unwind (!·.isBoundary) side waiting).failure = none) {boundary : Pending}
    {below : List Pending}
    (left : (unwind (!·.isBoundary) side waiting).waiting = boundary :: below) :
    (unwind (!·.isBoundary) side waiting).applied ++ pendingOperators below
      = pendingOperators waiting := by
  have isBoundary : boundary.isBoundary = true := by
    simpa using not_passes_of_unwind side waiting succeeds left
  rw [← applied_append_pendingOperators (fun _ => not_isBoundary_of_not) side waiting, left,
    pendingOperators_cons_of_boundary isBoundary]

end Unwind

/-! ## Steps -/

namespace Machine

variable [OperandSide σ β]

/-- An operator has some of the pending ones handed over, and joins the others unless one of
them fails. -/
theorem takeOperator_conserves (machine : Machine σ) {token : Token}
    (isOperator : token.isOperator = true) (position : Nat) :
    (((machine.takeOperator (β := β) token position).accepting
          (Pending.of token position)).toList ++ pendingOperators machine.waiting).Perm
      ((machine.takeOperator (β := β) token position).calls.filterMap Call.applied?
        ++ pendingOperators (machine.takeOperator (β := β) token position).machine.waiting) := by
  have inside : (Pending.of token position).isBoundary = false := by
    cases token with
    | sign | binary => rfl
    | number | opening | closing | endOfInput => cases isOperator
  have kept := applied_append_pendingOperators
    (fun entry (before : entry.goesBefore (.of token position) = true) =>
      Pending.not_isBoundary_of_goesBefore before)
    machine.side machine.waiting
  rw [← kept]
  simp only [takeOperator]
  generalize unwind (·.goesBefore (.of token position)) machine.side machine.waiting = unwinding
  obtain ⟨side, applied, waiting, failure⟩ := unwinding
  cases failure with
  | some failure =>
      simp only [Step.accepting, halt, filterMap_applied_calls]
      exact .refl _
  | none =>
      simp only [Step.accepting, filterMap_applied_calls, pendingOperators_cons inside]
      rw [Option.toList_some, List.singleton_append]
      exact List.perm_middle.symm

/-- Leaving a group, or failing to, hands over what it takes off the stack but a boundary. -/
theorem leaveGroup_conserves (machine : Machine σ) (position : Nat) :
    pendingOperators machine.waiting
      = (machine.leaveGroup (β := β) position).calls.filterMap Call.applied?
        ++ pendingOperators (machine.leaveGroup (β := β) position).machine.waiting := by
  have kept := applied_append_pendingOperators (fun _ => not_isBoundary_of_not)
    machine.side machine.waiting
  simp only [leaveGroup]
  split <;> simp only [halt, filterMap_applied_calls]
  · exact kept.symm
  · exact kept.symm
  · exact (applied_append_below_boundary machine.side ‹_› ‹_›).symm

theorem conclude_conserves (machine : Machine σ) (position : Nat) :
    pendingOperators machine.waiting
      = (machine.conclude (β := β) position).calls.filterMap Call.applied?
        ++ pendingOperators (machine.conclude (β := β) position).machine.waiting := by
  have kept := applied_append_pendingOperators (fun _ => not_isBoundary_of_not)
    machine.side machine.waiting
  simp only [conclude]
  split
  · simp only [halt, filterMap_applied_calls]
    exact kept.symm
  · simp only [halt, Unwinding.calls]
    rw [← Unwinding.calls, filterMap_applied_calls]
    exact (applied_append_below_boundary machine.side ‹_› ‹_›).symm
  · rename_i nothing
    rw [nothing] at kept
    simp only [List.filterMap_append, filterMap_applied_calls, List.filterMap_cons, Call.applied?,
      List.filterMap_nil, List.append_nil]
    exact kept.symm

/-- **What a step accepts and what has waited is handed over or waits behind it.** -/
theorem step_conserves (machine : Machine σ) (token : Token) (position : Nat) :
    ((machine.turn (β := β) token position).operator?.toList
        ++ pendingOperators machine.waiting).Perm
      ((machine.step (β := β) token position).calls.filterMap Call.applied?
        ++ pendingOperators (machine.step (β := β) token position).machine.waiting) := by
  by_cases placed : machine.expectation = token.place
  · rw [Turn.operator?, turn, step_of_placed placed]
    cases token with
    | number value => exact .refl _
    | opening =>
        have opened : pendingOperators (.of .opening position :: machine.waiting)
            = pendingOperators machine.waiting :=
          pendingOperators_cons_of_boundary rfl machine.waiting
        exact .of_eq opened.symm
    | sign polarity => exact machine.takeOperator_conserves rfl position
    | binary op => exact machine.takeOperator_conserves rfl position
    | closing => exact .of_eq (machine.leaveGroup_conserves position)
    | endOfInput => exact .of_eq (machine.conclude_conserves position)
  · rw [Turn.operator?, turn, step_of_misplaced machine token position placed]
    split <;> exact .refl _

/-- **A step takes the number that it accepts**, with its value and its place, and no other. -/
theorem taken_step (machine : Machine σ) (token : Token) (position : Nat) :
    (machine.step (β := β) token position).calls.filterMap Call.taken?
      = (machine.turn (β := β) token position).number?.toList := by
  by_cases placed : machine.expectation = token.place
  · rw [Turn.number?, turn, step_of_placed placed]
    cases token with
    | number value => rfl
    | opening => rfl
    | sign polarity =>
        rw [accept, calls_takeOperator]
        exact filterMap_taken_calls _
    | binary op =>
        rw [accept, calls_takeOperator]
        exact filterMap_taken_calls _
    | closing =>
        rw [accept, calls_leaveGroup]
        exact filterMap_taken_calls _
    | endOfInput =>
        simp only [accept, Step.map, conclude]
        split
        · exact filterMap_taken_calls _
        · exact filterMap_taken_calls _
        · rw [List.filterMap_append, filterMap_taken_calls]
          rfl
  · rw [Turn.number?, turn, step_of_misplaced machine token position placed]
    cases token <;> rfl

/-! ## Histories -/

/-- Two exchanges, one behind the other: what is left of the first is there for the second. -/
theorem perm_append_of_exchanges {α : Type} {given gone before between givenLater goneLater
    behind : List α} (first : (given ++ before).Perm (gone ++ between))
    (later : (givenLater ++ between).Perm (goneLater ++ behind)) :
    ((given ++ givenLater) ++ before).Perm ((gone ++ goneLater) ++ behind) := by
  rw [List.append_assoc, List.append_assoc]
  calc (given ++ (givenLater ++ before)).Perm (givenLater ++ (given ++ before)) :=
        List.perm_append_comm_assoc given givenLater before
    List.Perm _ (givenLater ++ (gone ++ between)) := first.append_left givenLater
    List.Perm _ (gone ++ (givenLater ++ between)) :=
        List.perm_append_comm_assoc givenLater gone between
    List.Perm _ (gone ++ (goneLater ++ behind)) := later.append_left gone

theorem filterMap_history_cons {γ : Type} (select : Turn σ β → Option γ) (machine : Machine σ)
    (token : Token) (position : Nat) (rest : List (Token × Nat)) :
    (machine.history (β := β) ((token, position) :: rest)).filterMap select
      = (select (machine.turn token position)).toList
        ++ ((machine.step (β := β) token position).machine.history rest).filterMap select := by
  rw [history_cons, List.filterMap_eq_flatMap_toList, List.flatMap_cons,
    ← List.filterMap_eq_flatMap_toList]

/-- **No operator is lost along a history.** -/
theorem history_conserves (machine : Machine σ) (tokens : List (Token × Nat)) :
    ((machine.history (β := β) tokens).filterMap Turn.operator?
        ++ pendingOperators machine.waiting).Perm
      (((machine.history (β := β) tokens).flatMap (·.step.calls)).filterMap Call.applied?
        ++ pendingOperators (machine.after (β := β) tokens).waiting) := by
  induction tokens generalizing machine with
  | nil => exact .refl _
  | cons placed rest ih =>
      obtain ⟨token, position⟩ := placed
      have first := machine.step_conserves (β := β) token position
      have later := ih (machine.step (β := β) token position).machine
      rw [filterMap_history_cons, history_cons, List.flatMap_cons, List.filterMap_append]
      exact perm_append_of_exchanges first later

/-- **The accepted numbers are taken along a history**, each at its turn. -/
theorem taken_history (machine : Machine σ) (tokens : List (Token × Nat)) :
    ((machine.history (β := β) tokens).flatMap (·.step.calls)).filterMap Call.taken?
      = (machine.history (β := β) tokens).filterMap Turn.number? := by
  induction tokens generalizing machine with
  | nil => rfl
  | cons placed rest ih =>
      obtain ⟨token, position⟩ := placed
      have first := machine.taken_step (β := β) token position
      have later := ih (machine.step (β := β) token position).machine
      rw [filterMap_history_cons, history_cons, List.flatMap_cons, List.filterMap_append, later]
      exact congrArg (· ++ _) first

end Machine

/-- **No operator is lost and no number waits.**  Whatever tokens a fresh machine is given, its
operand side is what the calls that its steps tell of leave behind.  By these calls the signs and
binary operators that the machine has accepted are, with their places, those that it has handed
to the side, one that failed included, and those that still wait, each as often as it was
accepted.  And the numbers that the side has taken are those that were accepted, with their
values and places, in order. -/
theorem accepted_operators_are_applied_or_wait {σ β : Type} [OperandSide σ β] (side : σ)
    (tokens : List (Token × Nat)) :
    ((Machine.start side).after tokens).side
        = OperandSide.performed side
          (((Machine.start side).history tokens).flatMap (·.step.calls)) ∧
      (((Machine.start side).history tokens).filterMap Turn.operator?).Perm
        ((((Machine.start side).history tokens).flatMap (·.step.calls)).filterMap Call.applied?
          ++ pendingOperators ((Machine.start side).after tokens).waiting) ∧
      (((Machine.start side).history tokens).flatMap (·.step.calls)).filterMap Call.taken?
        = ((Machine.start side).history tokens).filterMap Turn.number? := by
  refine ⟨(Machine.start side).side_after tokens, ?_, (Machine.start side).taken_history tokens⟩
  have conserved := (Machine.start side).history_conserves tokens
  rwa [Machine.start, pendingOperators, List.filter_nil, List.append_nil] at conserved

end InfixArithmetic
