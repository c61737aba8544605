import InfixArithmetic.Proofs.Machine.Run

/-!
# What every call keeps

A machine gets at its operand side by calls only: it takes numbers, applies operators and
asks for the result.  So a property of the states of a side that each of these calls keeps
is kept by every step, whatever the token and however it is answered
(`OperandSide.Preserves.step`), and along every run (`OperandSide.Preserves.steps` and
`OperandSide.Preserves.runFrom`).  Nothing is asked of the tokens but that their numbers
fit.
-/

namespace InfixArithmetic

set_option autoImplicit false

variable {σ β : Type} [OperandSide σ β]

/-- A property of the states of a side that every call keeps when the numbers that it takes
fit, and what it tells of results. -/
structure OperandSide.Preserves (holds : σ → Prop) (fits : Float → Prop) (yields : β → Prop) :
    Prop where
  take : ∀ {side : σ} {value : Float}, holds side → fits value → ∀ position,
    holds (OperandSide.take side value position)
  apply : ∀ {side : σ}, holds side → ∀ entry, holds (OperandSide.apply side entry).2
  result : ∀ {side : σ}, holds side → ∀ position, holds (OperandSide.result side position).2 ∧
    ∀ value, (OperandSide.result side position).1 = .ok value → yields value

namespace OperandSide.Preserves

variable {holds : σ → Prop} {fits : Float → Prop} {yields : β → Prop} {machine : Machine σ}

/-! ## Steps -/

theorem unwind (preserves : Preserves holds fits yields) (test : Pending → Bool) {side : σ}
    (held : holds side) (waiting : List Pending) :
    holds (unwind test side waiting).side := by
  induction waiting generalizing side with
  | nil => exact held
  | cons top below ih =>
      have behind := preserves.apply held top
      rw [InfixArithmetic.unwind]
      split
      · cases applied : OperandSide.apply side top with
        | mk answer later =>
            rw [applied] at behind
            cases answer with
            | ok => exact ih behind
            | error failure => exact behind
      · exact held

theorem takeOperator (preserves : Preserves holds fits yields) (held : holds machine.side)
    (token : Token) (position : Nat) :
    holds (machine.takeOperator (β := β) token position).machine.side := by
  have unwound := preserves.unwind (·.goesBefore (.of token position)) held machine.waiting
  simp only [Machine.takeOperator]
  split <;> exact unwound

theorem leaveGroup (preserves : Preserves holds fits yields) (held : holds machine.side)
    (position : Nat) : holds (machine.leaveGroup (β := β) position).machine.side := by
  have unwound := preserves.unwind (!·.isBoundary) held machine.waiting
  simp only [Machine.leaveGroup]
  split <;> exact unwound

theorem conclude (preserves : Preserves holds fits yields) (held : holds machine.side)
    (position : Nat) :
    holds (machine.conclude (β := β) position).machine.side ∧
      ∀ value, (machine.conclude position).answer = .ok value → yields value := by
  have unwound := preserves.unwind (!·.isBoundary) held machine.waiting
  simp only [Machine.conclude]
  split
  · exact ⟨unwound, nofun⟩
  · exact ⟨unwound, nofun⟩
  · exact preserves.result unwound position

theorem atEnd (preserves : Preserves holds fits yields) (held : holds machine.side)
    (position : Nat) :
    holds (machine.atEnd (β := β) position).machine.side ∧
      ∀ value, (machine.atEnd position).answer = .ok value → yields value := by
  rw [Machine.atEnd]
  split
  · refine ⟨held, fun value answered => ?_⟩
    cases answered
  · exact preserves.conclude held position

/-- **What every call keeps, every step keeps**, and a result is as it tells. -/
theorem step (preserves : Preserves holds fits yields) (held : holds machine.side)
    {token : Token} (fitting : ∀ value, token = .number value → fits value) (position : Nat) :
    holds (machine.step (β := β) token position).machine.side ∧
      ∀ value, (machine.step token position).answer = .ok (some value) → yields value := by
  by_cases ended : token = .endOfInput
  · subst ended
    obtain ⟨kept, yielded⟩ := preserves.atEnd (β := β) held position
    rw [machine.step_endOfInput, Step.map]
    refine ⟨kept, fun value answered => yielded value ?_⟩
    split at answered
    · cases answered
      assumption
    · cases answered
  · refine ⟨?_, fun value answered => absurd (Machine.eq_endOfInput_of_some answered) ended⟩
    rw [machine.step_eq]
    split
    · cases token with
      | number value => exact preserves.take held (fitting value rfl) position
      | opening => exact held
      | sign polarity => exact preserves.takeOperator held _ position
      | binary op => exact preserves.takeOperator held _ position
      | closing => exact preserves.leaveGroup held position
      | endOfInput => exact absurd rfl ended
    · exact held

/-! ## Runs -/

/-- **It is kept along any steps**, behind refusals and failures and behind the end. -/
theorem steps (preserves : Preserves holds fits yields) (held : holds machine.side)
    {tokens : List (Token × Nat)}
    (fitting : ∀ value position, (.number value, position) ∈ tokens → fits value) :
    ∀ step ∈ machine.steps (β := β) tokens, holds step.machine.side ∧
      ∀ value, step.answer = .ok (some value) → yields value := by
  induction tokens generalizing machine with
  | nil => exact List.forall_mem_nil _
  | cons placed rest ih =>
      obtain ⟨token, position⟩ := placed
      have fittingFirst : ∀ value, token = .number value → fits value :=
        fun value same => fitting value position (same ▸ List.mem_cons_self)
      have first := preserves.step (β := β) held fittingFirst position
      refine List.forall_mem_cons.mpr ⟨first, ih first.1 fun value place member => ?_⟩
      exact fitting value place (List.mem_cons_of_mem _ member)

/-- **A run yields what it tells.** -/
theorem runFrom (preserves : Preserves holds fits yields) (held : holds machine.side)
    {stream : List Item}
    (fitting : ∀ value position, .ok (.number value, position) ∈ stream → fits value)
    {position : Nat} {value : β} (answered : (runFrom machine position stream).answer = .ok value) :
    yields value := by
  induction stream generalizing machine position with
  | nil => exact (preserves.atEnd held position).2 value answered
  | cons item rest ih =>
      obtain error | ⟨token, place⟩ := item
      · cases answered
      have fittingFirst : ∀ value, token = .number value → fits value :=
        fun value same => fitting value place (same ▸ List.mem_cons_self)
      have first := preserves.step (β := β) held fittingFirst place
      cases step : (machine.step (β := β) token place).answer with
      | error failure =>
          rw [runFrom_of_error step] at answered
          cases answered
      | ok result =>
          cases result with
          | some yielded =>
              rw [runFrom_of_some step] at answered
              cases answered
              exact first.2 value step
          | none =>
              rw [runFrom_of_none step] at answered
              exact ih first.1 (fun number place member => fitting number place
                (List.mem_cons_of_mem _ member)) answered

end OperandSide.Preserves

end InfixArithmetic
