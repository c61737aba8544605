import InfixArithmetic.Proofs.Machine.Steps

/-!
# Where failures of operators come from

An operator is applied long after it was read, when a token calls for it that stands further
on.  But what is applied is an entry of the stack, and what is on the stack was put there by
an accepted token, with the place of that token (`Machine.exists_of_mem_waiting`).  So a
failure of an operand side can be traced back: where a run fails neither over its stream nor
over the grammar, an operator among the tokens before is at fault, or the side refuses to
give a result (`run_failure_cases`).

A stack of values fails over the arithmetic only where it applies a binary operator, at the
place of the operator, and it divides by zero only for a division
(`exists_operator_of_valueRun`).
-/

namespace InfixArithmetic

set_option autoImplicit false

/-! ## Steps that fail -/

section Sides

variable {σ β : Type} [OperandSide σ β]

/-- Whether a failure comes from applying an entry. -/
def FailsFor (σ : Type) {β : Type} [OperandSide σ β] (entry : Pending) (failure : Failure) :
    Prop :=
  ∃ side : σ, (OperandSide.apply side entry).1 = .error failure

/-- Whether a failure comes from asking for the result. -/
def FailsAtEnd (σ : Type) {β : Type} [OperandSide σ β] (failure : Failure) : Prop :=
  ∃ (side : σ) (position : Nat), (OperandSide.result side position).1 = .error failure

/-- Where unwinding stops at a failure, an entry of the stack is applied in vain. -/
theorem exists_of_unwind_failure {test : Pending → Bool} {side : σ} {waiting : List Pending}
    {failure : Failure} (failed : (unwind test side waiting).failure = some failure) :
    ∃ entry ∈ waiting, .apply entry ∈ (unwind test side waiting).calls ∧
      FailsFor σ entry failure := by
  induction waiting generalizing side with
  | nil => cases failed
  | cons top below ih =>
      rw [unwind] at failed ⊢
      split at failed
      · rw [if_pos ‹_›]
        cases applied : OperandSide.apply side top with
        | mk answer later =>
            rw [applied] at failed
            cases answer with
            | ok =>
                obtain ⟨entry, member, called, fails⟩ := ih failed
                exact ⟨entry, List.mem_cons_of_mem _ member, List.mem_cons_of_mem _ called, fails⟩
            | error other =>
                cases failed
                exact ⟨top, List.mem_cons_self, List.mem_cons_self, side, congrArg Prod.fst applied⟩
      · cases failed

namespace Machine

variable {machine : Machine σ} {token : Token} {position : Nat} {failure : Failure}

theorem exists_of_takeOperator_error
    (failed : (machine.takeOperator (β := β) token position).answer = .error failure) :
    ∃ entry ∈ machine.waiting,
      .apply entry ∈ (machine.takeOperator (β := β) token position).calls ∧
        FailsFor σ entry failure := by
  simp only [takeOperator] at failed ⊢
  split at failed
  · cases failed
    exact exists_of_unwind_failure ‹_›
  · cases failed

theorem cases_of_leaveGroup_error
    (failed : (machine.leaveGroup (β := β) position).answer = .error failure) :
    (∃ error, failure = .grammar error) ∨
      ∃ entry ∈ machine.waiting, .apply entry ∈ (machine.leaveGroup (β := β) position).calls ∧
        FailsFor σ entry failure := by
  simp only [leaveGroup] at failed ⊢
  split at failed
  · cases failed
    exact .inr (exists_of_unwind_failure ‹_›)
  · cases failed
    exact .inl ⟨_, rfl⟩
  · cases failed

theorem cases_of_conclude_error
    (failed : (machine.conclude (β := β) position).answer = .error failure) :
    (∃ error, failure = .grammar error) ∨
      (∃ entry ∈ machine.waiting, .apply entry ∈ (machine.conclude (β := β) position).calls ∧
        FailsFor σ entry failure) ∨
      FailsAtEnd σ failure := by
  simp only [conclude] at failed ⊢
  split at failed
  · cases failed
    exact .inr (.inl (exists_of_unwind_failure ‹_›))
  · cases failed
    exact .inl ⟨_, rfl⟩
  · exact .inr (.inr ⟨_, position, failed⟩)

/-- **Why a step fails**: over the grammar, or because of an entry of the stack that it
applies, or because there is no result. -/
theorem cases_of_step_error
    (failed : (machine.step (β := β) token position).answer = .error failure) :
    (∃ error, failure = .grammar error) ∨
      (∃ entry ∈ machine.waiting, .apply entry ∈ (machine.step (β := β) token position).calls ∧
        FailsFor σ entry failure) ∨
      FailsAtEnd σ failure := by
  rw [step_eq] at failed ⊢
  split at failed
  · rw [if_pos ‹_›]
    cases token with
    | number | opening => cases failed
    | sign | binary => exact .inr (.inl (exists_of_takeOperator_error failed))
    | closing =>
        obtain refused | applied := cases_of_leaveGroup_error failed
        · exact .inl refused
        · exact .inr (.inl applied)
    | endOfInput =>
        rw [accept, Step.map] at failed
        cases answered : (machine.conclude (β := β) position).answer with
        | ok value =>
            rw [answered] at failed
            cases failed
        | error other =>
            rw [answered] at failed
            cases failed
            exact cases_of_conclude_error answered
  · cases failed
    exact .inl ⟨_, rfl⟩

/-! ## Where entries come from -/

theorem mem_waitingBehind {machine : Machine σ} {entry : Pending}
    (member : entry ∈ machine.waitingBehind token position) :
    entry ∈ machine.waiting ∨ entry = .of token position := by
  have dropped : ∀ test : Pending → Bool, entry ∈ machine.waiting.dropWhile test →
      entry ∈ machine.waiting := fun test => (List.dropWhile_suffix test).mem
  cases token with
  | number | endOfInput => exact .inl member
  | opening => exact (List.mem_cons.mp member).symm
  | sign | binary => exact (List.mem_cons.mp member).symm.imp_left (dropped _)
  | closing => exact .inl (dropped _ (List.mem_of_mem_tail member))

/-- **Every entry of the stack is that of an accepted token**, or was there before. -/
theorem exists_of_mem_waiting {machine : Machine σ} {tokens : List (Token × Nat)}
    (accepts : machine.Accepts (β := β) tokens) {entry : Pending}
    (member : entry ∈ (machine.after (β := β) tokens).waiting) :
    entry ∈ machine.waiting ∨ ∃ token place, (token, place) ∈ tokens ∧ entry = .of token place := by
  induction tokens generalizing machine with
  | nil => exact .inl member
  | cons placed rest ih =>
      obtain ⟨token, position⟩ := placed
      obtain ⟨accepted, others⟩ := accepts_cons.mp accepts
      obtain before | ⟨later, place, isLater, rfl⟩ := ih others member
      · obtain ⟨-, side, stepped⟩ := step_of_accepted accepted
        rw [stepped] at before
        refine (mem_waitingBehind before).imp_right fun isFirst => ?_
        exact ⟨token, position, List.mem_cons_self, isFirst⟩
      · exact .inr ⟨later, place, List.mem_cons_of_mem _ isLater, rfl⟩

end Machine

/-- **Why a run fails**: over its stream or the grammar, or because of an accepted token that
is applied, or because there is no result. -/
theorem run_failure_cases {side : σ} {stream : List Item} {failure : Failure}
    (failed : (run (β := β) side stream).answer = .error failure) :
    (∃ error, .error error ∈ stream ∧ failure = .scan error) ∨
      (∃ error, failure = .grammar error) ∨
      (∃ token place, .ok (token, place) ∈ stream ∧ FailsFor σ (.of token place) failure) ∨
        FailsAtEnd σ failure := by
  obtain ⟨front, rest, rfl, accepts, stop⟩ := exists_stop_of_runFrom failed
  have behind : ∀ token place,
      (((Machine.start side).after (β := β) front).step (β := β) token place).answer
          = .error failure →
        (∃ error, failure = .grammar error) ∨
          (∃ token place, .ok (token, place) ∈ streamOf front ++ rest ∧
            FailsFor σ (.of token place) failure) ∨ FailsAtEnd σ failure := by
    intro token place failed
    refine (Machine.cases_of_step_error failed).imp_right (Or.imp_left ?_)
    rintro ⟨entry, member, -, fails⟩
    obtain isOld | ⟨other, position, isToken, rfl⟩ := Machine.exists_of_mem_waiting accepts member
    · cases isOld
    · exact ⟨other, position, List.mem_append_left _ (List.mem_map_of_mem isToken), fails⟩
  obtain ⟨error, others, rfl, rfl⟩ | ⟨token, place, others, -, answered⟩ | ⟨-, place, answered⟩ :=
    stop
  · exact .inl ⟨error, List.mem_append_right _ List.mem_cons_self, rfl⟩
  · exact .inr (behind token place answered)
  · refine .inr (behind .endOfInput place ?_)
    rw [Machine.step_endOfInput, Step.map, answered]

end Sides

/-! ## Writing -/

/-- An error in reading that a run which writes is answered with stands in its stream. -/
theorem mem_of_polishRun_scan {stream : List Item} {error : ScanError}
    (refused : (polishRun stream).answer = .error (.scan error)) : .error error ∈ stream := by
  obtain ⟨_, member, same⟩ | ⟨_, same⟩ | ⟨_, _, -, _, failed⟩ | ⟨_, _, failed⟩ :=
    run_failure_cases refused
  · cases same
    exact member
  · cases same
  · cases failed
  · cases failed

/-! ## Operators on values -/

theorem BinaryOp.cases_of_apply_error {op : BinaryOp} {left right : Float} {position : Nat}
    {error : ArithmeticError} (applied : op.apply left right position = .error error) :
    (op = .div ∧ error = .divisionByZero position) ∨
      (op = .rem ∧ error = .moduloByZero position) ∨ error = .overflow position := by
  rw [apply] at applied
  split at applied
  · cases applied
    rename_i refused
    rw [refusal?] at refused
    split at refused
    · cases op with
      | div =>
          cases refused
          exact .inl ⟨rfl, rfl⟩
      | rem =>
          cases refused
          exact .inr (.inl ⟨rfl, rfl⟩)
      | add | sub | mul => cases refused
    · cases refused
  · simp only at applied
    split at applied
    · cases applied
    · cases applied
      exact .inr (.inr rfl)

namespace Token

variable {token : Token} {left right operand : Float} {position : Nat} {error : ArithmeticError}

theorem exists_operator_of_applyBinary
    (applied : token.applyBinary left right position = .error (.arithmetic error)) :
    ∃ op, token = .binary op ∧ op.apply left right position = .error error := by
  cases token with
  | binary op =>
      rw [applyBinary] at applied
      cases result : op.apply left right position with
      | ok value =>
          rw [result] at applied
          cases applied
      | error other =>
          rw [result] at applied
          cases applied
          exact ⟨op, rfl, result⟩
  | number | sign | opening | closing | endOfInput => cases applied

theorem applyUnary_ne_arithmetic :
    token.applyUnary operand position ≠ .error (.arithmetic error) := by
  cases token <;> exact nofun

end Token

namespace ValueStack

theorem eq_error_of_settle {stack : ValueStack} {result : Except Failure Float} {failure : Failure}
    (failed : (stack.settle result).1 = .error failure) : result = .error failure := by
  cases result with
  | ok value => cases failed
  | error other =>
      cases failed
      rfl

/-- Over the arithmetic, a stack of values fails for binary operators only. -/
theorem exists_operator_of_failsFor {entry : Pending} {error : ArithmeticError}
    (fails : FailsFor ValueStack entry (.arithmetic error)) :
    ∃ op left right, entry.token = .binary op ∧
      op.apply left right entry.position = .error error := by
  obtain ⟨⟨values⟩, failed⟩ := fails
  change (apply ⟨values⟩ entry).1 = _ at failed
  rw [apply] at failed
  split at failed
  · match values, failed with
    | [], failed => cases failed
    | operand :: below, failed =>
        exact absurd (eq_error_of_settle failed) Token.applyUnary_ne_arithmetic
  · match values, failed with
    | [], failed | [_], failed => cases failed
    | right :: left :: below, failed =>
        obtain ⟨op, isOperator, applied⟩ :=
          Token.exists_operator_of_applyBinary (eq_error_of_settle failed)
        exact ⟨op, left, right, isOperator, applied⟩

theorem not_failsAtEnd (error : ArithmeticError) :
    ¬ FailsAtEnd ValueStack (.arithmetic error) := by
  rintro ⟨stack, position, failed⟩
  change (stack.result position).1 = _ at failed
  rw [result] at failed
  split at failed <;> cases failed

end ValueStack

/-- **Where the arithmetic fails, a binary operator of the stream is at fault**, and the
failure is at its place. -/
theorem exists_operator_of_valueRun {stream : List Item} {error : ArithmeticError}
    (failed : (valueRun stream).answer = .error (.arithmetic error)) :
    ∃ op position, .ok (.binary op, position) ∈ stream ∧
      ((op = .div ∧ error = .divisionByZero position) ∨
        (op = .rem ∧ error = .moduloByZero position) ∨ error = .overflow position) := by
  obtain ⟨_, -, same⟩ | ⟨_, same⟩ | ⟨token, place, member, fails⟩ | fails :=
    run_failure_cases failed
  · cases same
  · cases same
  · obtain ⟨op, left, right, rfl, applied⟩ := ValueStack.exists_operator_of_failsFor fails
    exact ⟨op, place, member, BinaryOp.cases_of_apply_error applied⟩
  · exact absurd fails (ValueStack.not_failsAtEnd error)

end InfixArithmetic
