import InfixArithmetic.Proofs.Machine.Run
import InfixArithmetic.Proofs.OperandSide.Carries

/-!
# Operand sides in lockstep

Which calls the machine makes is settled by the tokens and by its pending operators.
An operand side has no part in it, except that it can stop the machine by failing.
A page never fails, so the run that writes the reverse Polish order foretells the run
over any other side: the calls of the one are replayed on the other.  If the replay
fails, so does the other run, at the same call and with the same failure; if it
succeeds, the other run is refused what the first one is refused, and otherwise
answers with the result of what the replay left behind (`runFrom_foretells`).
-/

namespace InfixArithmetic

set_option autoImplicit false

open OperandSide

/-! ## The calls of a run -/

/-- The numbers and operators that a run hands to its operand side, in order. -/
def Run.handed {β : Type} (run : Run β) : List Call :=
  run.calls.flatten.filter Call.handsOver

theorem Run.handed_cons {β : Type} (answer : Except Failure β) (calls : List Call)
    (later : List (List Call)) :
    (⟨answer, calls :: later⟩ : Run β).handed
      = calls.filter Call.handsOver ++ (⟨answer, later⟩ : Run β).handed := by
  rw [handed, List.flatten_cons, List.filter_append]
  rfl

theorem Run.handed_singleton {β : Type} (answer : Except Failure β) (calls : List Call) :
    (⟨answer, [calls]⟩ : Run β).handed = calls.filter Call.handsOver := by
  rw [handed_cons]
  exact List.append_nil _

theorem filter_handsOver_callsWhile (test : Pending → Bool) (waiting : List Pending) :
    (callsWhile test waiting).filter Call.handsOver = callsWhile test waiting := by
  refine List.filter_eq_self.mpr fun call made => ?_
  obtain ⟨entry, -, rfl⟩ := List.mem_map.mp made
  rfl

/-! ## Machines that differ in their side -/

variable {σ τ β γ : Type} [OperandSide σ β] [OperandSide τ γ]

/-- The same machine with another operand side. -/
def Machine.withSide (machine : Machine σ) (side : τ) : Machine τ where
  side := side
  waiting := machine.waiting
  expectation := machine.expectation
  latest := machine.latest

/-- The same step with another operand side behind it, if it does not end the
expression. -/
def Step.withSide (step : Step σ (Option β)) (side : τ) : Step τ (Option γ) where
  answer := step.answer.map fun _ => none
  calls := step.calls
  machine := step.machine.withSide side

/-- What a step tells of a step with another side, by the replay of its calls there. -/
structure Step.Foretells (step : Step σ (Option β)) (side : τ) (other : Step τ (Option γ)) :
    Prop where
  /-- What is handed over are numbers and operators. -/
  handsOver : step.calls.filter Call.handsOver = step.calls
  failed : ∀ {failure : Failure},
    replay side step.calls = .error failure → other.answer = .error failure
  made : ∀ {later : τ}, replay side step.calls = .ok later → other = step.withSide later

/-- What a run tells of the answer with another side, by the replay of what it hands
over. -/
structure Run.Foretells (run : Run β) (side : τ) (answer : Except Failure γ) : Prop where
  failed : ∀ {failure : Failure},
    replay side run.handed = .error failure → answer = .error failure
  refused : ∀ {later : τ} {failure : Failure}, replay side run.handed = .ok later →
    run.answer = .error failure → answer = .error failure
  ended : ∀ {later : τ} {result : β}, replay side run.handed = .ok later →
    run.answer = .ok result → ∃ place, answer = (OperandSide.result later place).1

namespace Machine

/-! ## Steps in lockstep -/

section Steps

variable (machine : Machine ReversePolish) (side : τ)

theorem takeOperator_foretells (token : Token) (position : Nat) :
    (machine.takeOperator token position).Foretells side
      ((machine.withSide side).takeOperator (β := γ) token position) := by
  obtain ⟨page, written⟩ :=
    machine.side.exists_replay (machine.callsBefore (.of token position))
  rw [machine.takeOperator_of_replay_ok written]
  exact
    { handsOver := filter_handsOver_callsWhile ..
      failed := fun replayed =>
        (machine.withSide side).takeOperator_of_replay_error replayed
      made := fun replayed =>
        (machine.withSide side).takeOperator_of_replay_ok replayed }

theorem leaveGroup_foretells (position : Nat) :
    (machine.leaveGroup position).Foretells side
      ((machine.withSide side).leaveGroup (β := γ) position) := by
  obtain ⟨page, written⟩ := machine.side.exists_replay machine.callsInside
  cases dropped : machine.waiting.dropWhile (!·.isBoundary) with
  | nil =>
      rw [machine.leaveGroup_of_unmatched written dropped]
      exact
        { handsOver := filter_handsOver_callsWhile ..
          failed := fun replayed =>
            (machine.withSide side).leaveGroup_of_replay_error replayed position
          made := fun replayed =>
            (machine.withSide side).leaveGroup_of_unmatched replayed dropped position }
  | cons boundary below =>
      rw [machine.leaveGroup_of_replay_ok written dropped]
      exact
        { handsOver := filter_handsOver_callsWhile ..
          failed := fun replayed =>
            (machine.withSide side).leaveGroup_of_replay_error replayed position
          made := fun replayed =>
            (machine.withSide side).leaveGroup_of_replay_ok replayed dropped position }

/-- **A step with any token but the end, in lockstep.** -/
theorem step_foretells {token : Token} (notEnd : token ≠ .endOfInput) (position : Nat) :
    (machine.step token position).Foretells side
      ((machine.withSide side).step (β := γ) token position) := by
  by_cases placed : machine.expectation = token.place
  · have placedThere : (machine.withSide side).expectation = token.place := placed
    rw [step_of_placed placed, step_of_placed placedThere]
    cases token with
    | number value =>
        exact ⟨rfl, nofun, fun replayed => by cases replayed; rfl⟩
    | opening => exact ⟨rfl, nofun, fun replayed => by cases replayed; rfl⟩
    | sign polarity => exact machine.takeOperator_foretells side _ position
    | binary op => exact machine.takeOperator_foretells side _ position
    | closing => exact machine.leaveGroup_foretells side position
    | endOfInput => exact absurd rfl notEnd
  · rw [step_of_misplaced machine token position placed,
      step_of_misplaced (machine.withSide side) token position placed]
    exact ⟨rfl, nofun, fun replayed => by cases replayed; rfl⟩

/-- At the end of an expression everything down to the innermost boundary is handed
over. -/
theorem handed_atEnd (expected : machine.expectation = .operator) (position : Nat) :
    (runFrom (β := List Token) machine position []).handed = machine.callsInside := by
  obtain ⟨page, written⟩ := machine.side.exists_replay machine.callsInside
  have inside := filter_handsOver_callsWhile (!·.isBoundary) machine.waiting
  rw [runFrom_nil, Run.handed_singleton, atEnd_of_placed expected]
  cases dropped : machine.waiting.dropWhile (!·.isBoundary) with
  | nil =>
      rw [machine.conclude_of_replay_ok written dropped, List.filter_append, callsInside, inside]
      exact List.append_nil _
  | cons boundary below =>
      rw [machine.conclude_of_unclosed written dropped, callsInside, inside]

theorem atEnd_foretells (position : Nat) :
    (runFrom machine position []).Foretells side
      ((machine.withSide side).atEnd (β := γ) position).answer := by
  by_cases expected : machine.expectation = .operator
  · obtain ⟨page, written⟩ := machine.side.exists_replay machine.callsInside
    have handed := machine.handed_atEnd expected position
    have expectedThere : (machine.withSide side).expectation = .operator := expected
    rw [runFrom_nil, atEnd_of_placed expected] at handed ⊢
    rw [atEnd_of_placed expectedThere]
    constructor
    · intro _ replayed
      rw [handed] at replayed
      exact (machine.withSide side).conclude_of_replay_error replayed position
    · intro _ _ replayed answered
      rw [handed] at replayed
      cases dropped : machine.waiting.dropWhile (!·.isBoundary) with
      | nil =>
          rw [machine.conclude_of_replay_ok written dropped] at answered
          cases answered
      | cons boundary below =>
          rw [machine.conclude_of_unclosed written dropped] at answered
          cases answered
          rw [(machine.withSide side).conclude_of_unclosed replayed dropped]
    · intro _ _ replayed answered
      rw [handed] at replayed
      cases dropped : machine.waiting.dropWhile (!·.isBoundary) with
      | nil =>
          refine ⟨position, ?_⟩
          rw [(machine.withSide side).conclude_of_replay_ok replayed dropped]
      | cons boundary below =>
          rw [machine.conclude_of_unclosed written dropped] at answered
          cases answered
  · have expectedThere : ¬ (machine.withSide side).expectation = .operator := expected
    rw [runFrom_nil, atEnd_of_misplaced expected, atEnd_of_misplaced expectedThere]
    refine ⟨nofun, fun _ answered => ?_, nofun⟩
    cases answered
    rfl

end Steps

end Machine

/-! ## Runs in lockstep -/

section Runs

variable {run : Run β} {side later : τ} {answer : Except Failure γ} {calls : List Call}

theorem Run.Foretells.of_failed {failure : Failure} {others : List (List Call)}
    (begins : run.calls = calls :: others) (handsOver : calls.filter Call.handsOver = calls)
    (replayed : replay side calls = .error failure) (failed : answer = .error failure) :
    run.Foretells side answer := by
  have stops : replay side run.handed = .error failure := by
    rw [handed, begins, List.flatten_cons, List.filter_append, handsOver]
    exact replay_append_of_error replayed _
  constructor
  · intro other same
    rw [stops] at same
    cases same
    exact failed
  · intro _ _ made
    rw [stops] at made
    cases made
  · intro _ _ made
    rw [stops] at made
    cases made

theorem Run.Foretells.behind (told : run.Foretells later answer)
    (handsOver : calls.filter Call.handsOver = calls) (replayed : replay side calls = .ok later) :
    (⟨run.answer, calls :: run.calls⟩ : Run β).Foretells side answer := by
  have goesOn : replay side (⟨run.answer, calls :: run.calls⟩ : Run β).handed
      = replay later run.handed := by
    rw [handed_cons, handsOver]
    exact replay_append_of_ok replayed _
  constructor
  · intro _ failed
    exact told.failed (goesOn.symm.trans failed)
  · intro _ _ made answered
    exact told.refused (goesOn.symm.trans made) answered
  · intro _ _ made answered
    exact told.ended (goesOn.symm.trans made) answered

theorem Run.Foretells.of_refused {failure : Failure}
    (replayed : replay side calls = .ok later) (handsOver : calls.filter Call.handsOver = calls) :
    (⟨.error failure, [calls]⟩ : Run β).Foretells side (.error failure : Except Failure γ) := by
  have made : replay side (⟨.error failure, [calls]⟩ : Run β).handed = .ok later := by
    rw [handed_singleton, handsOver, replayed]
  constructor
  · intro _ failed
    rw [made] at failed
    cases failed
  · intro _ _ _ answered
    cases answered
    rfl
  · exact nofun

end Runs

/-- **The run that writes the reverse Polish order foretells the run over any side.** -/
theorem runFrom_foretells (machine : Machine ReversePolish) (side : τ) (position : Nat)
    (stream : List Item) :
    (runFrom machine position stream).Foretells side
      (runFrom (machine.withSide side) position stream).answer := by
  induction stream generalizing machine side position with
  | nil => exact machine.atEnd_foretells side position
  | cons item rest ih =>
      obtain error | ⟨token, place⟩ := item
      · rw [runFrom_scanError, runFrom_scanError]
        exact .of_refused (replay_nil side) rfl
      by_cases ended : token = .endOfInput
      · rw [ended, runFrom_endOfInput, runFrom_endOfInput]
        exact machine.atEnd_foretells side place
      have told := machine.step_foretells side ended place
      cases replayed : replay side (machine.step (β := List Token) token place).calls with
      | error failure =>
          obtain ⟨others, begins⟩ :=
            exists_calls_runFrom (β := List Token) machine position place token rest
          refine .of_failed begins told.handsOver replayed ?_
          rw [runFrom_of_error (told.failed replayed)]
      | ok later =>
          have other := told.made replayed
          cases answered : (machine.step (β := List Token) token place).answer with
          | error failure =>
              have refused : ((machine.withSide side).step (β := γ) token place).answer
                  = .error failure := by
                rw [other, Step.withSide, answered]
                rfl
              rw [runFrom_of_error answered, runFrom_of_error refused]
              exact .of_refused replayed told.handsOver
          | ok result =>
              cases result with
              | some written => exact absurd (Machine.eq_endOfInput_of_some answered) ended
              | none =>
                  have accepted : ((machine.withSide side).step (β := γ) token place).answer
                      = .ok none := by
                    rw [other, Step.withSide, answered]
                    rfl
                  rw [runFrom_of_none answered, runFrom_of_none accepted, other]
                  exact (ih _ later place).behind told.handsOver replayed

end InfixArithmetic
