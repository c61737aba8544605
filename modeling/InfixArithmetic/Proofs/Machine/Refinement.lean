import InfixArithmetic.Proofs.Machine.Balance

/-!
# Computing refines writing

The run that computes a value is told by the run that writes the reverse Polish order.
What the second one hands to its page is replayed on an empty stack.  If the arithmetic
fails there, the first run fails in the same way; if not, it is refused what the second
run is refused, and if nothing is, its answer is the one value that the replay leaves.
So it is on every stream, well formed or not, with errors at any place and with the end
anywhere or nowhere (`valueRun_refines_polishRun`).

For a source it follows that a value is never found without a reverse Polish order that
reduces to it, and that both runs are refused the same sources with the same errors,
but for those where the arithmetic comes first.
-/

namespace InfixArithmetic

set_option autoImplicit false

open OperandSide

/-! ## What a page is refused -/

namespace Machine

variable {machine : Machine ReversePolish} {position : Nat} {failure : Failure}

/-- Writing can only fail over the grammar. -/
theorem grammar_of_step {token : Token} (notEnd : token ≠ .endOfInput)
    (failed : (machine.step (β := List Token) token position).answer = .error failure) :
    ∃ error, failure = .grammar error := by
  by_cases placed : machine.expectation = token.place
  · rw [step_of_placed placed] at failed
    cases token with
    | number | opening => cases failed
    | sign | binary =>
        obtain ⟨page, written⟩ := machine.side.exists_replay (machine.callsBefore (.of _ position))
        rw [accept, machine.takeOperator_of_replay_ok written] at failed
        cases failed
    | closing =>
        obtain ⟨page, written⟩ := machine.side.exists_replay machine.callsInside
        rw [accept] at failed
        cases dropped : machine.waiting.dropWhile (!·.isBoundary) with
        | nil =>
            rw [machine.leaveGroup_of_unmatched written dropped] at failed
            cases failed
            exact ⟨_, rfl⟩
        | cons boundary below =>
            rw [machine.leaveGroup_of_replay_ok written dropped] at failed
            cases failed
    | endOfInput => exact absurd rfl notEnd
  · rw [step_of_misplaced machine token position placed] at failed
    cases failed
    exact ⟨_, rfl⟩

theorem grammar_of_atEnd
    (failed : (machine.atEnd (β := List Token) position).answer = .error failure) :
    ∃ error, failure = .grammar error := by
  by_cases expected : machine.expectation = .operator
  · obtain ⟨page, written⟩ := machine.side.exists_replay machine.callsInside
    rw [atEnd_of_placed expected] at failed
    cases dropped : machine.waiting.dropWhile (!·.isBoundary) with
    | nil =>
        rw [machine.conclude_of_replay_ok written dropped] at failed
        cases failed
    | cons boundary below =>
        rw [machine.conclude_of_unclosed written dropped] at failed
        cases failed
        exact ⟨_, rfl⟩
  · rw [atEnd_of_misplaced expected] at failed
    cases failed
    exact ⟨_, rfl⟩

end Machine

/-- Whether a failure is about the source or its grammar, and not about the arithmetic. -/
def Failure.IsRefusal (failure : Failure) : Prop :=
  (∃ error, failure = .scan error) ∨ ∃ error, failure = .grammar error

theorem not_isRefusal_arithmetic (error : ArithmeticError) :
    ¬ (Failure.arithmetic error).IsRefusal := by
  rintro (⟨_, same⟩ | ⟨_, same⟩) <;> cases same

theorem isRefusal_of_runFrom {machine : Machine ReversePolish} {position : Nat}
    {stream : List Item} {failure : Failure}
    (failed : (runFrom (β := List Token) machine position stream).answer = .error failure) :
    failure.IsRefusal := by
  induction stream generalizing machine position with
  | nil => exact .inr (Machine.grammar_of_atEnd failed)
  | cons item rest ih =>
      obtain error | ⟨token, place⟩ := item
      · cases failed
        exact .inl ⟨error, rfl⟩
      by_cases ended : token = .endOfInput
      · rw [ended, runFrom_endOfInput] at failed
        exact .inr (Machine.grammar_of_atEnd failed)
      cases answered : (machine.step (β := List Token) token place).answer with
      | error other =>
          rw [runFrom_of_error answered] at failed
          cases failed
          exact .inr (Machine.grammar_of_step ended answered)
      | ok result =>
          cases result with
          | some written => exact absurd (Machine.eq_endOfInput_of_some answered) ended
          | none =>
              rw [runFrom_of_none answered] at failed
              exact ih failed

/-! ## Streams -/

variable (stream : List Item)

theorem polishRun_foretells :
    (polishRun stream).Foretells ({} : ValueStack) (valueRun stream).answer :=
  runFrom_foretells (Machine.start {}) ({} : ValueStack) 0 stream

/-- What is written are the tokens of what was handed over. -/
theorem written_of_polishRun {stream : List Item} {written : List Token}
    (answered : (polishRun stream).answer = .ok written) :
    written = (polishRun stream).handed.flatMap Call.written := by
  obtain ⟨final, carries, -⟩ := (Machine.balanced_start ({} : ReversePolish)).runFrom 0 stream
  obtain ⟨later, replayed, tokens⟩ := ReversePolish.replay_of_carries carries {}
  have told : (polishRun stream).Foretells ({} : ReversePolish) (polishRun stream).answer :=
    runFrom_foretells (Machine.start {}) ({} : ReversePolish) 0 stream
  obtain ⟨place, same⟩ := told.ended replayed answered
  rw [answered] at same
  cases same
  exact tokens

/-- What the run that writes hands over either fails over the arithmetic on an empty
stack, or leaves what its tokens reduce to. -/
theorem replay_handed :
    (∃ error, replay ({} : ValueStack) (polishRun stream).handed = .error (.arithmetic error)) ∨
      ∃ stack, replay ({} : ValueStack) (polishRun stream).handed = .ok stack ∧
        ((polishRun stream).handed.flatMap Call.written).foldlM Token.reduce? []
          = some stack.values ∧
        ∀ written, (polishRun stream).answer = .ok written → ∃ value, stack.values = [value] := by
  obtain ⟨final, carries, single⟩ :=
    (Machine.balanced_start ({} : ReversePolish)).runFrom 0 stream
  obtain failed | ⟨stack, replayed, size, reduced⟩ :=
    ValueStack.replay_of_carries carries {} rfl
  · exact .inl failed
  · refine .inr ⟨stack, replayed, reduced, fun written answered => ?_⟩
    rw [single written answered] at size
    exact List.length_eq_one_iff.mp size

/-- The three ways in which the two runs can come out. -/
theorem valueRun_cases :
    (∃ error, replay ({} : ValueStack) (polishRun stream).handed = .error (.arithmetic error) ∧
        (valueRun stream).answer = .error (.arithmetic error)) ∨
      ∃ stack, replay ({} : ValueStack) (polishRun stream).handed = .ok stack ∧
        ((∃ failure : Failure, failure.IsRefusal ∧ (polishRun stream).answer = .error failure ∧
            (valueRun stream).answer = .error failure) ∨
          ∃ written value, (polishRun stream).answer = .ok written ∧
            reduction? written = some value ∧ stack.values = [value] ∧
              (valueRun stream).answer = .ok value) := by
  have told := polishRun_foretells stream
  obtain ⟨error, failed⟩ | ⟨stack, replayed, reduced, single⟩ := replay_handed stream
  · exact .inl ⟨error, failed, told.failed failed⟩
  refine .inr ⟨stack, replayed, ?_⟩
  cases answered : (polishRun stream).answer with
  | error failure =>
      exact .inl ⟨failure, isRefusal_of_runFrom answered, rfl, told.refused replayed answered⟩
  | ok written =>
      obtain ⟨value, alone⟩ := single written answered
      obtain ⟨place, result⟩ := told.ended replayed answered
      refine .inr ⟨written, value, rfl, ?_, alone, ?_⟩
      · rw [written_of_polishRun answered, reduction?, reduced, alone]
      · obtain ⟨values⟩ := stack
        cases alone
        exact result

/-! ## Sources -/

/-- A source with a value has a reverse Polish order that reduces to it. -/
theorem exists_written_of_evaluate {source : String} {value : Float}
    (answered : evaluate source = .ok value) :
    ∃ written, toReversePolish source = .ok written ∧ reduction? written = some value := by
  obtain ⟨error, -, failed⟩ | ⟨stack, -, outcome⟩ := valueRun_cases (items source)
  · rw [evaluate, failed] at answered
    cases answered
  obtain ⟨failure, -, -, failed⟩ | ⟨written, result, wrote, reduces, -, computed⟩ := outcome
  · rw [evaluate, failed] at answered
    cases answered
  · rw [evaluate, computed] at answered
    cases answered
    exact ⟨written, wrote, reduces⟩

/-- A source that is refused when its value is wanted is refused anyway. -/
theorem toReversePolish_of_refusal {source : String} {failure : Failure}
    (refusal : failure.IsRefusal) (failed : evaluate source = .error failure) :
    toReversePolish source = .error failure := by
  obtain ⟨error, -, answered⟩ | ⟨stack, -, outcome⟩ := valueRun_cases (items source)
  · rw [evaluate, answered] at failed
    cases failed
    exact absurd refusal (not_isRefusal_arithmetic error)
  obtain ⟨other, -, refused, answered⟩ | ⟨written, value, -, -, -, answered⟩ := outcome
  · rw [evaluate, answered] at failed
    cases failed
    exact refused
  · rw [evaluate, answered] at failed
    cases failed

/-- **Computing refines writing.**  On every stream, what the run that writes hands over is
replayed on an empty stack: a failure of the replay is arithmetical, and it is the answer
of the run that computes; otherwise that run is refused what the first one is refused,
or answers with the one value that is left.  So for every source a value comes with a
reverse Polish order that reduces to it, errors of the source and of its grammar are
common to both, and writing never fails over the arithmetic. -/
theorem valueRun_refines_polishRun :
    (∀ stream : List Item,
      (∀ failure, replay ({} : ValueStack) (polishRun stream).handed = .error failure →
        (∃ error, failure = .arithmetic error) ∧ (valueRun stream).answer = .error failure) ∧
      ∀ stack, replay ({} : ValueStack) (polishRun stream).handed = .ok stack →
        (∀ failure, (polishRun stream).answer = .error failure →
          ((∃ error, failure = .scan error) ∨ ∃ error, failure = .grammar error) ∧
            (valueRun stream).answer = .error failure) ∧
        ∀ written, (polishRun stream).answer = .ok written →
          ∃ value, stack.values = [value] ∧ (valueRun stream).answer = .ok value) ∧
    ∀ source : String,
      (∀ value, evaluate source = .ok value →
        ∃ written, toReversePolish source = .ok written ∧ reduction? written = some value) ∧
      (∀ error, evaluate source = .error (.scan error) →
        toReversePolish source = .error (.scan error)) ∧
      (∀ error, evaluate source = .error (.grammar error) →
        toReversePolish source = .error (.grammar error)) ∧
      ∀ error, toReversePolish source ≠ .error (.arithmetic error) := by
  refine ⟨fun stream => ?_, fun source => ?_⟩
  · obtain ⟨error, failed, answered⟩ | ⟨stack, replayed, outcome⟩ := valueRun_cases stream
    · rw [failed]
      refine ⟨fun failure same => ?_, nofun⟩
      cases same
      exact ⟨⟨error, rfl⟩, answered⟩
    · rw [replayed]
      refine ⟨nofun, fun other same => ?_⟩
      cases same
      obtain ⟨failure, refusal, refused, answered⟩ |
        ⟨written, value, wrote, reduces, alone, answered⟩ := outcome
      · rw [refused]
        refine ⟨fun other same => ?_, nofun⟩
        cases same
        exact ⟨refusal, answered⟩
      · rw [wrote]
        exact ⟨nofun, fun _ _ => ⟨value, alone, answered⟩⟩
  · exact ⟨fun _ => exists_written_of_evaluate,
      fun error => toReversePolish_of_refusal (.inl ⟨error, rfl⟩),
      fun error => toReversePolish_of_refusal (.inr ⟨error, rfl⟩),
      fun error failed => not_isRefusal_arithmetic error (isRefusal_of_runFrom failed)⟩

/-- In `1/0)` the closing parenthesis has the division applied before it is found to close
nothing, so the two runs answer differently. -/
example :
    let stream := streamOf [(.number 1, 0), (.binary .div, 1), (.number 0, 2), (.closing, 3)]
    (valueRun stream).answer = .error (.arithmetic (.divisionByZero 1)) ∧
      (polishRun stream).answer = .error (.grammar (.unmatchedClosing 3)) :=
  ⟨rfl, rfl⟩

end InfixArithmetic
