import InfixArithmetic.Proofs.Journal.Happening
import InfixArithmetic.Proofs.Machine.Applied
import InfixArithmetic.Proofs.Machine.Conservation
import InfixArithmetic.Proofs.Machine.Counting

/-!
# The order of reduction

Evaluating a source and writing it in reverse Polish order go the same way: the same tokens are
drawn, the same calls are made, and in the same order.  Only a failure of the arithmetic, which
a page knows nothing about, can end the one before the other.  So what happens over any operand
side is what happens over a page, up to the first operator that fails on that side
(`TokenStream.happenings_withSide`).

The journals follow, for an operator is told of just before it is applied, be the application in
vain.
-/

namespace InfixArithmetic

set_option autoImplicit false

open OperandSide

/-! ## Up to the first failure -/

namespace Happening

variable {σ β : Type} [OperandSide σ β]

/-- What happens up to the first operator that fails on an operand side, and that application
too. -/
def upTo (side : σ) : List Happening → List Happening
  | [] => []
  | .drawn emission :: rest => .drawn emission :: upTo side rest
  | .called (.result position) :: rest => .called (.result position) :: upTo side rest
  | .called (.take value position) :: rest =>
      .called (.take value position) :: upTo (OperandSide.take side value position) rest
  | .called (.apply entry) :: rest =>
      .called (.apply entry) ::
        match OperandSide.apply side entry with
        | (.ok (), later) => upTo later rest
        | (.error _, _) => []

theorem upTo_apply_of_ok {side later : σ} {entry : Pending}
    (applied : OperandSide.apply side entry = (.ok (), later)) (rest : List Happening) :
    upTo side (.called (.apply entry) :: rest) = .called (.apply entry) :: upTo later rest := by
  simp only [upTo, applied]

theorem upTo_apply_of_error {side later : σ} {entry : Pending} {failure : Failure}
    (applied : OperandSide.apply side entry = (.error failure, later)) (rest : List Happening) :
    upTo side (.called (.apply entry) :: rest) = [.called (.apply entry)] := by
  simp only [upTo, applied]

theorem upTo_isPrefix (side : σ) (happenings : List Happening) :
    upTo side happenings <+: happenings := by
  induction happenings generalizing side with
  | nil => exact List.nil_prefix
  | cons happening rest ih =>
      match happening with
      | .drawn _ | .called (.result _) | .called (.take _ _) =>
          exact (List.prefix_cons_inj _).mpr (ih _)
      | .called (.apply entry) =>
          cases applied : OperandSide.apply side entry with
          | mk answer later =>
              cases answer with
              | ok =>
                  rw [upTo_apply_of_ok applied]
                  exact (List.prefix_cons_inj _).mpr (ih later)
              | error failure =>
                  rw [upTo_apply_of_error applied]
                  exact (List.prefix_cons_inj _).mpr List.nil_prefix

/-- If all that is handed over can be handed over, nothing is cut off. -/
theorem upTo_append_of_replay_ok {side later : σ} {front : List Happening}
    (replayed : replay side (front.filterMap handed?) = .ok later) (back : List Happening) :
    upTo side (front ++ back) = front ++ upTo later back := by
  induction front generalizing side with
  | nil =>
      cases replayed
      rfl
  | cons happening rest ih =>
      match happening, replayed with
      | .drawn emission, replayed => exact congrArg (_ :: ·) (ih replayed)
      | .called (.result position), replayed => exact congrArg (_ :: ·) (ih replayed)
      | .called (.take value position), replayed => exact congrArg (_ :: ·) (ih replayed)
      | .called (.apply entry), replayed =>
          change replay side (.apply entry :: rest.filterMap handed?) = _ at replayed
          cases applied : OperandSide.apply side entry with
          | mk answer next =>
              cases answer with
              | ok =>
                  rw [replay_apply_of_ok applied] at replayed
                  rw [List.cons_append, upTo_apply_of_ok applied, ih replayed]
                  rfl
              | error failure =>
                  rw [replay_apply_of_error applied] at replayed
                  cases replayed

theorem upTo_of_replay_ok {side later : σ} {happenings : List Happening}
    (replayed : replay side (happenings.filterMap handed?) = .ok later) :
    upTo side happenings = happenings := by
  have whole := upTo_append_of_replay_ok replayed []
  rwa [upTo, List.append_nil] at whole

/-- Otherwise the application that fails comes last. -/
theorem exists_of_replay_error {side : σ} {front : List Happening} {failure : Failure}
    (replayed : replay side (front.filterMap handed?) = .error failure) :
    ∃ before entry, FailsFor σ entry failure ∧
      ∀ back, upTo side (front ++ back) = before ++ [.called (.apply entry)] := by
  induction front generalizing side with
  | nil => cases replayed
  | cons happening rest ih =>
      have behind : ∀ later : σ, replay later (rest.filterMap handed?) = .error failure →
          (∀ back, upTo side (happening :: rest ++ back) = happening :: upTo later (rest ++ back)) →
            ∃ before entry, FailsFor σ entry failure ∧
              ∀ back, upTo side (happening :: rest ++ back)
                = before ++ [.called (.apply entry)] := by
        intro later replayed goesOn
        obtain ⟨before, entry, fails, cut⟩ := ih replayed
        refine ⟨happening :: before, entry, fails, fun back => ?_⟩
        rw [goesOn, cut]
        rfl
      match happening, replayed, behind with
      | .drawn emission, replayed, behind => exact behind side replayed fun _ => rfl
      | .called (.result position), replayed, behind => exact behind side replayed fun _ => rfl
      | .called (.take value position), replayed, behind => exact behind _ replayed fun _ => rfl
      | .called (.apply entry), replayed, behind =>
          change replay side (.apply entry :: rest.filterMap handed?) = _ at replayed
          cases applied : OperandSide.apply side entry with
          | mk answer next =>
              cases answer with
              | ok =>
                  rw [replay_apply_of_ok applied] at replayed
                  exact behind next replayed fun back => upTo_apply_of_ok applied _
              | error other =>
                  rw [replay_apply_of_error applied] at replayed
                  cases replayed
                  exact ⟨[], entry, ⟨side, congrArg Prod.fst applied⟩, fun back =>
                    upTo_apply_of_error applied _⟩

/-- What comes behind a failure does not matter. -/
theorem upTo_append_of_replay_error {side : σ} {front : List Happening} {failure : Failure}
    (replayed : replay side (front.filterMap handed?) = .error failure) (back : List Happening) :
    upTo side (front ++ back) = upTo side front := by
  obtain ⟨before, entry, -, cut⟩ := exists_of_replay_error replayed
  rw [cut, ← cut [], List.append_nil]

end Happening

/-! ## Machines over a page and over another side -/

open Happening

variable {τ γ : Type} [OperandSide τ γ]

/-- Unwinding makes the calls that it has to make up to the first that fails. -/
theorem upTo_callsWhile (test : Pending → Bool) (side : τ) (waiting : List Pending) :
    upTo side ((callsWhile test waiting).map .called)
      = (unwind test side waiting).calls.map .called := by
  induction waiting generalizing side with
  | nil => rfl
  | cons top below ih =>
      by_cases passes : test top = true
      · rw [callsWhile_of_pass passes, List.map_cons]
        cases applied : OperandSide.apply side top with
        | mk answer later =>
            cases answer with
            | ok =>
                rw [upTo_apply_of_ok applied, calls_unwind_of_ok passes applied, ih later]
                rfl
            | error failure =>
                rw [upTo_apply_of_error applied, calls_unwind_of_error passes applied]
                rfl
      · rw [callsWhile_of_stop passes, unwind, if_neg passes]
        rfl

namespace Machine

variable (machine : Machine ReversePolish) (side : τ)

theorem calls_takeOperator_withSide (token : Token) (position : Nat) :
    ((machine.withSide side).takeOperator (β := γ) token position).calls.map .called
      = upTo side ((machine.takeOperator (β := List Token) token position).calls.map .called) := by
  obtain ⟨page, written⟩ := machine.side.exists_replay (machine.callsBefore (.of token position))
  rw [machine.takeOperator_of_replay_ok written, calls_takeOperator]
  exact (upTo_callsWhile _ side machine.waiting).symm

theorem calls_leaveGroup_withSide (position : Nat) :
    ((machine.withSide side).leaveGroup (β := γ) position).calls.map .called
      = upTo side ((machine.leaveGroup (β := List Token) position).calls.map .called) := by
  obtain ⟨page, written⟩ := machine.side.exists_replay machine.callsInside
  rw [calls_leaveGroup]
  cases dropped : machine.waiting.dropWhile (!·.isBoundary) with
  | nil =>
      rw [machine.leaveGroup_of_unmatched written dropped]
      exact (upTo_callsWhile _ side machine.waiting).symm
  | cons boundary below =>
      rw [machine.leaveGroup_of_replay_ok written dropped]
      exact (upTo_callsWhile _ side machine.waiting).symm

/-- If an entry fails, the other side is not asked for its result, and it does not matter what
the page is asked at its end. -/
theorem calls_conclude_withSide (position : Nat) :
    ((machine.withSide side).conclude (β := γ) position).calls.map .called
      = upTo side ((machine.conclude (β := List Token) position).calls.map .called) := by
  obtain ⟨page, written⟩ := machine.side.exists_replay machine.callsInside
  have handed : (machine.callsInside.map Happening.called).filterMap handed?
      = machine.callsInside := by
    rw [filterMap_handed?_called]
    exact filter_handsOver_callsWhile ..
  cases replayed : replay side machine.callsInside with
  | error failure =>
      rw [(machine.withSide side).calls_conclude_of_replay_error replayed]
      refine (upTo_callsWhile _ side machine.waiting).symm.trans ?_
      rw [← handed] at replayed
      cases dropped : machine.waiting.dropWhile (!·.isBoundary) with
      | nil =>
          rw [machine.conclude_of_replay_ok written dropped, List.map_append,
            upTo_append_of_replay_error replayed]
          rfl
      | cons boundary below =>
          rw [machine.conclude_of_unclosed written dropped]
          rfl
  | ok later =>
      cases dropped : machine.waiting.dropWhile (!·.isBoundary) with
      | nil =>
          rw [(machine.withSide side).conclude_of_replay_ok replayed dropped,
            machine.conclude_of_replay_ok written dropped]
          rw [← handed] at replayed
          simp only [List.map_append, upTo_append_of_replay_ok replayed]
          rfl
      | cons boundary below =>
          rw [(machine.withSide side).conclude_of_unclosed replayed dropped,
            machine.conclude_of_unclosed written dropped]
          rw [← handed] at replayed
          exact (upTo_of_replay_ok replayed).symm

theorem calls_atEnd_withSide (position : Nat) :
    ((machine.withSide side).atEnd (β := γ) position).calls.map .called
      = upTo side ((machine.atEnd (β := List Token) position).calls.map .called) := by
  by_cases expected : machine.expectation = .operator
  · have expectedThere : (machine.withSide side).expectation = .operator := expected
    rw [atEnd_of_placed expectedThere, atEnd_of_placed expected]
    exact machine.calls_conclude_withSide side position
  · have expectedThere : ¬ (machine.withSide side).expectation = .operator := expected
    rw [atEnd_of_misplaced expectedThere, atEnd_of_misplaced expected]
    rfl

/-- **A step makes the same calls over any side, up to the first that fails.** -/
theorem calls_step_withSide (token : Token) (position : Nat) :
    ((machine.withSide side).step (β := γ) token position).calls.map .called
      = upTo side ((machine.step (β := List Token) token position).calls.map .called) := by
  by_cases placed : machine.expectation = token.place
  · have placedThere : (machine.withSide side).expectation = token.place := placed
    rw [step_of_placed placedThere, step_of_placed placed]
    cases token with
    | number | opening => rfl
    | sign | binary => exact machine.calls_takeOperator_withSide side _ position
    | closing => exact machine.calls_leaveGroup_withSide side position
    | endOfInput => exact machine.calls_conclude_withSide side position
  · rw [step_of_misplaced machine token position placed,
      step_of_misplaced (machine.withSide side) token position placed]
    rfl

/-- A step that is refused over a page, or ends there, does not go on over another side. -/
theorem answer_withSide_ne {token : Token} {position : Nat}
    (settled : (machine.step (β := List Token) token position).answer ≠ .ok none) :
    ((machine.withSide side).step (β := γ) token position).answer ≠ .ok none := by
  intro accepted
  have notEnd := ne_endOfInput_of_accepted accepted
  have told := machine.step_foretells (γ := γ) side notEnd position
  cases replayed : replay side (machine.step (β := List Token) token position).calls with
  | error failure => cases accepted.symm.trans (told.failed replayed)
  | ok later =>
      rw [told.made replayed, Step.withSide] at accepted
      cases answered : (machine.step (β := List Token) token position).answer with
      | error failure =>
          rw [answered] at accepted
          cases accepted
      | ok result =>
          cases result with
          | none => exact settled answered
          | some written => exact notEnd (eq_endOfInput_of_some answered)

end Machine

/-! ## Streams -/

/-- **What happens over any operand side is what happens over a page, up to the first operator
that fails on that side.** -/
theorem TokenStream.happenings_withSide (machine : Machine ReversePolish) (side : τ)
    (position : Nat) (stream : TokenStream) :
    happenings (β := γ) (machine.withSide side) position stream
      = upTo side (happenings (β := List Token) machine position stream) := by
  fun_induction happenings machine position stream generalizing side with
  | case1 machine position stream ended =>
      rw [happenings_of_next_none ended]
      exact machine.calls_atEnd_withSide side position
  | case2 machine position stream emission later drawn error isError =>
      rw [happenings_of_scanError drawn isError]
      rfl
  | case3 machine position stream emission later drawn token place isToken step failure failed =>
      have settled : step.answer ≠ .ok none := by
        intro accepted
        cases accepted.symm.trans failed
      rw [happenings_of_settled drawn isToken (machine.answer_withSide_ne side settled)]
      exact congrArg (_ :: ·) (machine.calls_step_withSide side token place)
  | case4 machine position stream emission later drawn token place isToken step result ended =>
      have settled : step.answer ≠ .ok none := by
        intro accepted
        cases accepted.symm.trans ended
      rw [happenings_of_settled drawn isToken (machine.answer_withSide_ne side settled)]
      exact congrArg (_ :: ·) (machine.calls_step_withSide side token place)
  | case5 machine position stream emission later drawn token place isToken step accepted _ ih =>
      have notEnd := Machine.ne_endOfInput_of_accepted accepted
      have told := machine.step_foretells (γ := γ) side notEnd place
      have made := machine.calls_step_withSide (γ := γ) side token place
      have handed : (step.calls.map Happening.called).filterMap handed? = step.calls := by
        rw [filterMap_handed?_called]
        exact told.handsOver
      rw [upTo]
      cases replayed : replay side step.calls with
      | error failure =>
          have settled : ((machine.withSide side).step (β := γ) token place).answer ≠ .ok none := by
            intro goesOn
            cases goesOn.symm.trans (told.failed replayed)
          rw [← handed] at replayed
          rw [happenings_of_settled drawn isToken settled, upTo_append_of_replay_error replayed,
            made]
      | ok next =>
          have same := told.made replayed
          have goesOn : ((machine.withSide side).step (β := γ) token place).answer = .ok none := by
            rw [same, Step.withSide, accepted]
            rfl
          rw [← handed] at replayed
          rw [happenings_of_none drawn isToken goesOn, upTo_append_of_replay_ok replayed, same,
            ← ih]
          rfl

/-! ## Operators in the journal -/

/-- The operator that a record says is applied. -/
def Record.operator? : Record → Option Token
  | .applying token _ => some token
  | .implied _ _ | .evaluated _ _ => none

theorem Happening.filterMap_operator?_record? (happenings : List Happening) :
    (happenings.filterMap record?).filterMap Record.operator?
      = ((happenings.filterMap handed?).filterMap Call.applied?).map Pending.token := by
  rw [List.filterMap_filterMap, List.filterMap_filterMap, List.map_filterMap]
  congr
  funext happening
  rcases happening with (_ | _ | _) | (_ | _ | _) <;> rfl

/-- Of what calls leave on a page, the operators are those applied. -/
theorem Carries.map_token_applied? {count final : Nat} {calls : List Call}
    (carries : Carries count calls final) :
    (calls.filterMap Call.applied?).map Pending.token
      = (calls.flatMap Call.written).filter Token.isOperator := by
  induction carries with
  | none => rfl
  | take value position later ih => exact ih
  | sign polarity position later ih => exact congrArg (Token.sign polarity :: ·) ih
  | binary op position later ih => exact congrArg (Token.binary op :: ·) ih

namespace Journal

theorem atLevel_trace (records : List Record) : atLevel .trace records = records :=
  List.filter_eq_self.mpr fun record _ => decide_eq_true (Nat.zero_le record.level.severity)

/-- The value of a source is told of only when it is found. -/
theorem evaluated_not_mem (happenings : List Happening) (text : String) (value : Float) :
    Record.evaluated text value ∉ happenings.filterMap Happening.record? := by
  intro told
  obtain ⟨happening, -, isRecord⟩ := List.mem_filterMap.mp told
  rcases happening with (_ | _ | _) | (_ | _ | _) <;> cases isRecord

/-- Evaluating goes the way of writing, up to the first operator that fails. -/
theorem computing_eq (source : String) :
    computing source = Happening.upTo ({} : ValueStack) (writing source) :=
  TokenStream.happenings_withSide (Machine.start {}) ({} : ValueStack) 0 _

theorem filterMap_handed?_writing (source : String) :
    (writing source).filterMap Happening.handed? = (polishRun (items source)).handed :=
  TokenStream.filterMap_handed?_happenings (Machine.start ({} : ReversePolish)) 0 _

/-- If the arithmetic does not fail, evaluating goes all the way. -/
theorem evaluation_eq_toReversePolish {source : String}
    (defined : ∀ error, InfixArithmetic.evaluate source ≠ .error (.arithmetic error)) :
    evaluation source = toReversePolish source := by
  obtain ⟨error, -, failed⟩ | ⟨stack, replayed, -⟩ := valueRun_cases (items source)
  · exact absurd failed (defined error)
  · rw [← filterMap_handed?_writing] at replayed
    rw [evaluation_eq, toReversePolish_eq, computing_eq, Happening.upTo_of_replay_ok replayed]

/-- If it does, the operator that failed is the last one told of. -/
theorem exists_evaluation_eq_append {source : String} {error : ArithmeticError}
    (failed : InfixArithmetic.evaluate source = .error (.arithmetic error)) :
    ∃ before op, evaluation source = before ++ [.applying (.binary op) error.position] := by
  obtain ⟨other, replayed, failedToo⟩ | ⟨stack, -, outcome⟩ := valueRun_cases (items source)
  · cases failed.symm.trans failedToo
    rw [← filterMap_handed?_writing] at replayed
    obtain ⟨before, entry, fails, cut⟩ := Happening.exists_of_replay_error replayed
    obtain ⟨op, left, right, isOperator, applied⟩ := ValueStack.exists_operator_of_failsFor fails
    have position : error.position = entry.position := by
      obtain ⟨-, rfl⟩ | ⟨-, rfl⟩ | rfl := BinaryOp.cases_of_apply_error applied <;> rfl
    refine ⟨before.filterMap Happening.record?, op, ?_⟩
    have whole := cut []
    rw [List.append_nil] at whole
    rw [evaluation_eq, computing_eq, whole, List.filterMap_append, position, ← isOperator]
    rfl
  · obtain ⟨failure, refusal, -, answered⟩ | ⟨_, value, -, -, -, answered⟩ := outcome
    · cases failed.symm.trans answered
      exact absurd refusal (not_isRefusal_arithmetic error)
    · cases failed.symm.trans answered

/-- The operators told of are those of the reverse Polish order, one by one. -/
theorem filterMap_operator?_toReversePolish {source : String} {tokens : List Token}
    (wrote : InfixArithmetic.toReversePolish source = .ok tokens) :
    (toReversePolish source).filterMap Record.operator? = tokens.filter Token.isOperator := by
  obtain ⟨final, carries, -⟩ :=
    (Machine.balanced_start ({} : ReversePolish)).runFrom 0 (items source)
  rw [toReversePolish_eq, Happening.filterMap_operator?_record?, filterMap_handed?_writing,
    written_of_polishRun wrote]
  exact carries.map_token_applied?

end Journal

/-- **The journal tells the true order of reduction**, for every source.

- Writing it in reverse Polish order leaves a record, for debugging, of each star that is
  understood when it is drawn, and a trace of each operator that is applied, in the order in
  which all this happens, and nothing else.
- If there is a reverse Polish order, the operators told of are its operators, one by one.
- Evaluating leaves a beginning of these records, and all of them unless the arithmetic fails;
  then the last one is that of the operator at fault.
- The value is told of exactly if there is one, and then it comes last. -/
theorem journal_tells_order_of_reduction (source : String) :
    (Journal.atLevel .trace (Journal.toReversePolish source)
        = (Journal.writing source).filterMap Happening.record? ∧
      ∀ record ∈ Journal.toReversePolish source,
        (∃ before position, record = .implied before position ∧ record.level = .debug) ∨
          ∃ token position, record = .applying token position ∧ record.level = .trace) ∧
    (∀ tokens, toReversePolish source = .ok tokens →
      (Journal.toReversePolish source).filterMap Record.operator?
        = tokens.filter Token.isOperator) ∧
    (Journal.evaluation source = (Journal.computing source).filterMap Happening.record? ∧
      Journal.evaluation source <+: Journal.toReversePolish source ∧
      ((∀ error, evaluate source ≠ .error (.arithmetic error)) →
        Journal.evaluation source = Journal.toReversePolish source) ∧
      ∀ error, evaluate source = .error (.arithmetic error) →
        ∃ op, (Journal.evaluation source).getLast?
          = some (.applying (.binary op) error.position)) ∧
    (∀ text value, .evaluated text value ∉ Journal.evaluation source) ∧
    (∀ value, evaluate source = .ok value →
      Journal.evaluate source = Journal.evaluation source ++ [.evaluated source value]) ∧
    ∀ failure, evaluate source = .error failure →
      Journal.evaluate source = Journal.evaluation source := by
  refine ⟨⟨?_, ?_⟩, ?_, ⟨Journal.evaluation_eq source, ?_, ?_, ?_⟩, ?_, ?_, ?_⟩
  · rw [Journal.atLevel_trace, Journal.toReversePolish_eq]
  · intro record told
    rw [Journal.toReversePolish_eq] at told
    obtain ⟨happening, -, isRecord⟩ := List.mem_filterMap.mp told
    cases record with
    | implied before position => exact .inl ⟨before, position, rfl, rfl⟩
    | applying token position => exact .inr ⟨token, position, rfl, rfl⟩
    | evaluated text value => exact absurd told (Journal.evaluated_not_mem _ text value)
  · exact fun tokens wrote => Journal.filterMap_operator?_toReversePolish wrote
  · rw [Journal.evaluation_eq, Journal.toReversePolish_eq, Journal.computing_eq]
    exact (Happening.upTo_isPrefix _ _).filterMap _
  · exact Journal.evaluation_eq_toReversePolish
  · intro error failed
    obtain ⟨before, op, told⟩ := Journal.exists_evaluation_eq_append failed
    exact ⟨op, by rw [told, List.getLast?_concat]⟩
  · intro text value
    rw [Journal.evaluation_eq]
    exact Journal.evaluated_not_mem _ text value
  · intro value answered
    rw [Journal.evaluate, Journal.outcome, answered]
  · intro failure failed
    rw [Journal.evaluate, Journal.outcome, failed]
    exact List.append_nil _

/-- In `(1)2/0+1` a star is understood, and it is applied before the division is; the division
is applied in vain, so only the reverse Polish order gets to the addition. -/
example :
    let common : List Record :=
      [.implied (.number 2) 3, .applying (.binary .mul) 3, .applying (.binary .div) 4]
    Journal.evaluate "(1)2/0+1" = common ∧
      Journal.toReversePolish "(1)2/0+1" = common ++ [.applying (.binary .add) 6] := by
  decide +kernel

end InfixArithmetic
