import InfixArithmetic.Machine.Run

/-!
# Runs, item by item

A run over a list of items is told by its first step: an error of the stream or of
the step is the answer, the result after the end is the answer, and otherwise the
rest of the items is run from the machine behind the step.  The equations below
say so for the answer and for the calls together, once the step is known.

A stream of tokens can end in two ways, by running out and by the end of the input
with anything behind it, and the answer is the same (`Ends`).
-/

namespace InfixArithmetic

set_option autoImplicit false

/-- The stream of placed tokens, in which nothing is wrong. -/
def streamOf (tokens : List (Token × Nat)) : List Item :=
  tokens.map .ok

theorem streamOf_append (front back : List (Token × Nat)) :
    streamOf (front ++ back) = streamOf front ++ streamOf back :=
  List.map_append

/-- The stream of placed tokens with the end of the input behind them. -/
def endedStream (tokens : List (Token × Nat)) (position : Nat) : List Item :=
  streamOf (tokens ++ [(.endOfInput, position)])

theorem endedStream_eq (tokens : List (Token × Nat)) (position : Nat) :
    endedStream tokens position = streamOf tokens ++ [.ok (.endOfInput, position)] := by
  rw [endedStream, streamOf_append]
  rfl

variable {σ β : Type} [OperandSide σ β]

/-! ## The first item -/

theorem runFrom_nil (machine : Machine σ) (position : Nat) :
    runFrom (β := β) machine position []
      = ⟨(machine.atEnd position).answer, [(machine.atEnd (β := β) position).calls]⟩ :=
  rfl

theorem runFrom_scanError (machine : Machine σ) (position : Nat) (error : ScanError)
    (rest : List Item) :
    runFrom (β := β) machine position (.error error :: rest) = ⟨.error (.scan error), [[]]⟩ :=
  rfl

theorem runFrom_of_error {machine : Machine σ} {token : Token} {place : Nat} {failure : Failure}
    (failed : (machine.step (β := β) token place).answer = .error failure) (position : Nat)
    (rest : List Item) :
    runFrom machine position (.ok (token, place) :: rest)
      = ⟨.error failure, [(machine.step (β := β) token place).calls]⟩ := by
  rw [runFrom]
  simp only [failed]

theorem runFrom_of_none {machine : Machine σ} {token : Token} {place : Nat}
    (accepted : (machine.step (β := β) token place).answer = .ok none) (position : Nat)
    (rest : List Item) :
    runFrom machine position (.ok (token, place) :: rest)
      = ⟨(runFrom (machine.step (β := β) token place).machine place rest).answer,
        (machine.step (β := β) token place).calls
          :: (runFrom (β := β) (machine.step (β := β) token place).machine place rest).calls⟩ := by
  rw [runFrom]
  simp only [accepted]

theorem runFrom_of_some {machine : Machine σ} {token : Token} {place : Nat} {result : β}
    (ended : (machine.step token place).answer = .ok (some result)) (position : Nat)
    (rest : List Item) :
    runFrom machine position (.ok (token, place) :: rest)
      = ⟨.ok result, [(machine.step (β := β) token place).calls]⟩ := by
  rw [runFrom]
  simp only [ended]

/-- Whatever comes of it, a run begins with the calls of its first step. -/
theorem exists_calls_runFrom (machine : Machine σ) (position place : Nat) (token : Token)
    (rest : List Item) :
    ∃ later, (runFrom (β := β) machine position (.ok (token, place) :: rest)).calls
      = (machine.step (β := β) token place).calls :: later := by
  rw [runFrom]
  split <;> exact ⟨_, rfl⟩

theorem runFrom_of_ne_nil {stream : List Item} (nonempty : stream ≠ []) (machine : Machine σ)
    (position place : Nat) :
    runFrom (β := β) machine position stream = runFrom machine place stream := by
  match stream with
  | [] => exact absurd rfl nonempty
  | .error _ :: _ => rfl
  | .ok _ :: _ => rfl

/-! ## The end of a stream -/

/-- What follows the tokens of an expression: nothing, or the end and whatever comes
after it. -/
def Ends (ending : List Item) : Prop :=
  ending = [] ∨ ∃ position rest, ending = .ok (.endOfInput, position) :: rest

theorem ends_endOfInput (position : Nat) : Ends [.ok (.endOfInput, position)] :=
  .inr ⟨position, [], rfl⟩

/-- A run stops at the end of the input, as if the stream had run out there. -/
theorem runFrom_endOfInput (machine : Machine σ) (position place : Nat) (rest : List Item) :
    runFrom (β := β) machine position (.ok (.endOfInput, place) :: rest)
      = runFrom machine place [] := by
  have step := machine.step_endOfInput (β := β) place
  rw [runFrom_nil]
  cases answered : (machine.atEnd (β := β) place).answer with
  | ok result =>
      have ended : (machine.step (β := β) .endOfInput place).answer = .ok (some result) := by
        rw [step, Step.map, answered]
      rw [runFrom_of_some ended, step]
      rfl
  | error failure =>
      have failed : (machine.step (β := β) .endOfInput place).answer = .error failure := by
        rw [step, Step.map, answered]
      rw [runFrom_of_error failed, step]
      rfl

theorem runFrom_of_ends {ending : List Item} (ends : Ends ending) (machine : Machine σ)
    (position : Nat) :
    ∃ place, (runFrom (β := β) machine position ending).answer
      = (machine.atEnd (β := β) place).answer := by
  obtain rfl | ⟨place, rest, rfl⟩ := ends
  · exact ⟨position, rfl⟩
  · exact ⟨place, congrArg Run.answer (runFrom_endOfInput machine position place rest)⟩

/-! ## Streams that do not end -/

/-- Only the end of the input is answered with a result. -/
theorem Machine.eq_endOfInput_of_some {machine : Machine σ} {token : Token} {position : Nat}
    {result : β} (answered : (machine.step token position).answer = .ok (some result)) :
    token = .endOfInput := by
  rw [machine.step_eq] at answered
  split at answered
  · cases token with
    | endOfInput => rfl
    | number | opening => cases answered
    | sign | binary =>
        simp only [Machine.accept, Machine.takeOperator] at answered
        split at answered <;> cases answered
    | closing =>
        simp only [Machine.accept, Machine.leaveGroup] at answered
        split at answered <;> cases answered
  · cases answered

/-- A stream that runs into an error before it ends is answered with an error. -/
theorem runFrom_of_scanError {tokens : List (Token × Nat)} (error : ScanError)
    (noEnd : ∀ placed ∈ tokens, placed.1 ≠ .endOfInput) (machine : Machine σ) (position : Nat) :
    ∃ failure, (runFrom (β := β) machine position (streamOf tokens ++ [.error error])).answer
      = .error failure := by
  induction tokens generalizing machine position with
  | nil => exact ⟨.scan error, rfl⟩
  | cons placed rest ih =>
      obtain ⟨token, place⟩ := placed
      obtain ⟨notEnd, restNoEnd⟩ := List.forall_mem_cons.mp noEnd
      rw [streamOf, List.map_cons, List.cons_append]
      cases answered : (machine.step (β := β) token place).answer with
      | error failure => exact ⟨failure, by rw [runFrom_of_error answered]⟩
      | ok result =>
          cases result with
          | none =>
              obtain ⟨failure, failed⟩ :=
                ih restNoEnd (machine.step (β := β) token place).machine place
              exact ⟨failure, by rw [runFrom_of_none answered]; exact failed⟩
          | some result => exact absurd (Machine.eq_endOfInput_of_some answered) notEnd

end InfixArithmetic
