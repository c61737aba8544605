import InfixArithmetic.Proofs.Machine.Prefix

/-!
# A group stands for its value

Inside a group the machine works as a fresh machine does.  Its stack and its values are
those of a fresh machine on top of a boundary, and what is below the boundary is what was
there when the group was opened (`Machine.inGroup`).  A step that a fresh machine accepts
is accepted in the group and reaches no further down (`Machine.step_inGroup`), and so do all
the steps of an expression (`Machine.after_inGroup`).

So a group with a value leaves what a number with that value leaves, but for the token that
the machine remembers.  That token is looked at when a token is out of place and at no other
time, and nothing is said of a closing parenthesis there that is not said of a number
(`runFrom_withLatest`).

Main statement: `group_stands_for_value`, for a group in any place where an operand is
awaited, with anything before it and anything behind it.
-/

namespace InfixArithmetic

set_option autoImplicit false

open OperandSide

/-! ## Stacks on top of each other -/

namespace ValueStack

variable {upper later : ValueStack}

/-- A stack with another one below it. -/
def onTopOf (upper lower : ValueStack) : ValueStack :=
  ⟨upper.values ++ lower.values⟩

theorem settle_onTopOf {result : Except Failure Float}
    (settled : upper.settle result = (.ok (), later)) (lower : ValueStack) :
    (upper.onTopOf lower).settle result = (.ok (), later.onTopOf lower) := by
  cases result with
  | ok value =>
      cases settled
      rfl
  | error failure => cases settled

/-- An entry that finds its operands on a stack does not reach below it. -/
theorem apply_onTopOf {entry : Pending} (applied : upper.apply entry = (.ok (), later))
    (lower : ValueStack) : (upper.onTopOf lower).apply entry = (.ok (), later.onTopOf lower) := by
  obtain ⟨values⟩ := upper
  rw [apply] at applied ⊢
  split at applied
  · rw [if_pos ‹_›]
    match values, applied with
    | operand :: below, applied => exact settle_onTopOf applied lower
  · rw [if_neg ‹_›]
    match values, applied with
    | right :: left :: below, applied => exact settle_onTopOf applied lower

/-- Nor do entries that are applied one after another. -/
theorem replay_onTopOf {entries : List Pending}
    (replayed : replay upper (entries.map .apply) = .ok later) (lower : ValueStack) :
    replay (upper.onTopOf lower) (entries.map .apply) = .ok (later.onTopOf lower) := by
  induction entries generalizing upper with
  | nil =>
      cases replayed
      rfl
  | cons entry rest ih =>
      rw [List.map_cons] at replayed ⊢
      cases applied : OperandSide.apply upper entry with
      | mk answer next =>
          cases answer with
          | ok =>
              rw [replay_apply_of_ok applied] at replayed
              rw [replay_apply_of_ok (apply_onTopOf applied lower)]
              exact ih replayed
          | error failure =>
              rw [replay_apply_of_error applied] at replayed
              cases replayed

end ValueStack

section Boundary

variable {test : Pending → Bool} {boundary : Pending}

theorem callsWhile_append_of_stop (stops : test boundary = false) (waiting below : List Pending) :
    callsWhile test (waiting ++ boundary :: below) = callsWhile test waiting := by
  induction waiting with
  | nil => simp [callsWhile, stops]
  | cons top rest ih =>
      by_cases passes : test top = true
      · rw [List.cons_append, callsWhile_of_pass passes, callsWhile_of_pass passes, ih]
      · rw [List.cons_append, callsWhile_of_stop passes, callsWhile_of_stop passes]

theorem dropWhile_append_of_stop (stops : test boundary = false) (waiting below : List Pending) :
    (waiting ++ boundary :: below).dropWhile test
      = waiting.dropWhile test ++ boundary :: below := by
  induction waiting with
  | nil => simp [stops]
  | cons top rest ih =>
      by_cases passes : test top = true
      · simp [passes, ih]
      · simp [passes]

end Boundary

namespace Machine

/-! ## Inside a group -/

/-- The machine inside a group: the stacks of one machine, then the boundary of the group,
then the stacks that the group was opened on. -/
def inGroup (inner outer : Machine ValueStack) (opening : Nat) : Machine ValueStack where
  side := inner.side.onTopOf outer.side
  waiting := inner.waiting ++ .of .opening opening :: outer.waiting
  expectation := inner.expectation
  latest := inner.latest.or (some .opening)

section Inside

variable {inner : Machine ValueStack} (outer : Machine ValueStack) (opening : Nat)

/-- Behind its opening parenthesis a group is empty. -/
theorem step_opening {outer : Machine ValueStack} (expected : outer.expectation = .operand) :
    outer.step (β := Float) .opening opening
      = ⟨.ok none, [], (start {}).inGroup outer opening⟩ := by
  have placed : outer.expectation = Token.opening.place := expected
  rw [step_of_placed placed, accept, enterGroup, expected]
  rfl

/-- An operator inside a group has nothing applied that is outside. -/
theorem callsBefore_inGroup (incoming : Pending) :
    (inner.inGroup outer opening).callsBefore incoming = inner.callsBefore incoming :=
  callsWhile_append_of_stop rfl _ _

theorem callsInside_inGroup : (inner.inGroup outer opening).callsInside = inner.callsInside :=
  callsWhile_append_of_stop rfl _ _

theorem replay_callsBefore_inGroup {incoming : Pending} {later : ValueStack}
    (replayed : replay inner.side (inner.callsBefore incoming) = .ok later) :
    replay (inner.inGroup outer opening).side ((inner.inGroup outer opening).callsBefore incoming)
      = .ok (later.onTopOf outer.side) := by
  rw [callsBefore_inGroup]
  exact ValueStack.replay_onTopOf replayed outer.side

theorem replay_callsInside_inGroup {later : ValueStack}
    (replayed : replay inner.side inner.callsInside = .ok later) :
    replay (inner.inGroup outer opening).side (inner.inGroup outer opening).callsInside
      = .ok (later.onTopOf outer.side) := by
  rw [callsInside_inGroup]
  exact ValueStack.replay_onTopOf replayed outer.side

/-- What a closing parenthesis takes away inside a group does not reach the boundary. -/
theorem dropWhile_inGroup :
    (inner.inGroup outer opening).waiting.dropWhile (!·.isBoundary)
      = inner.waiting.dropWhile (!·.isBoundary) ++ .of .opening opening :: outer.waiting :=
  dropWhile_append_of_stop rfl _ _

theorem takeOperator_inGroup {token : Token} {position : Nat}
    (accepted : (inner.takeOperator (β := Float) token position).answer = .ok none) :
    (inner.inGroup outer opening).takeOperator (β := Float) token position
      = ⟨.ok none, (inner.takeOperator (β := Float) token position).calls,
        (inner.takeOperator (β := Float) token position).machine.inGroup outer opening⟩ := by
  cases replayed : replay inner.side (inner.callsBefore (.of token position)) with
  | error failure =>
      rw [inner.takeOperator_of_replay_error replayed] at accepted
      cases accepted
  | ok later =>
      rw [takeOperator_of_replay_ok _ (replay_callsBefore_inGroup outer opening replayed),
        takeOperator_of_replay_ok _ replayed, callsBefore_inGroup]
      simp only [inGroup, List.cons_append, Option.some_or]
      rw [dropWhile_append_of_stop rfl]

theorem leaveGroup_inGroup {position : Nat}
    (accepted : (inner.leaveGroup (β := Float) position).answer = .ok none) :
    (inner.inGroup outer opening).leaveGroup (β := Float) position
      = ⟨.ok none, (inner.leaveGroup (β := Float) position).calls,
        (inner.leaveGroup (β := Float) position).machine.inGroup outer opening⟩ := by
  cases replayed : replay inner.side inner.callsInside with
  | error failure =>
      rw [inner.leaveGroup_of_replay_error replayed] at accepted
      cases accepted
  | ok later =>
      cases dropped : inner.waiting.dropWhile (!·.isBoundary) with
      | nil =>
          rw [inner.leaveGroup_of_unmatched replayed dropped] at accepted
          cases accepted
      | cons boundary below =>
          have droppedThere : (inner.inGroup outer opening).waiting.dropWhile (!·.isBoundary)
              = boundary :: (below ++ .of .opening opening :: outer.waiting) := by
            rw [dropWhile_inGroup, dropped, List.cons_append]
          have replayedThere := replay_callsInside_inGroup outer opening replayed
          rw [leaveGroup_of_replay_ok _ replayedThere droppedThere,
            leaveGroup_of_replay_ok _ replayed dropped, callsInside_inGroup]
          rfl

/-- **A step that a machine accepts is accepted in a group**, with the same calls, and leaves
what is below the boundary alone. -/
theorem step_inGroup {token : Token} {position : Nat}
    (accepted : (inner.step (β := Float) token position).answer = .ok none) :
    (inner.inGroup outer opening).step (β := Float) token position
      = ⟨.ok none, (inner.step (β := Float) token position).calls,
        (inner.step (β := Float) token position).machine.inGroup outer opening⟩ := by
  have placed := (step_of_accepted accepted).1
  have placedThere : (inner.inGroup outer opening).expectation = token.place := placed
  rw [step_of_placed placed] at accepted
  rw [step_of_placed placedThere, step_of_placed placed]
  cases token with
  | number value | opening => rfl
  | sign | binary => exact takeOperator_inGroup outer opening accepted
  | closing => exact leaveGroup_inGroup outer opening accepted
  | endOfInput =>
      rw [accept, Step.map] at accepted
      split at accepted <;> cases accepted

/-- **Accepted tokens are accepted in a group**, which is on top of the same stacks behind
them. -/
theorem after_inGroup {tokens : List (Token × Nat)} (accepts : inner.Accepts (β := Float) tokens) :
    (inner.inGroup outer opening).Accepts (β := Float) tokens ∧
      (inner.inGroup outer opening).after (β := Float) tokens
        = (inner.after (β := Float) tokens).inGroup outer opening := by
  induction tokens generalizing inner with
  | nil => exact ⟨accepts_nil _, rfl⟩
  | cons placed rest ih =>
      obtain ⟨token, position⟩ := placed
      obtain ⟨first, others⟩ := accepts_cons.mp accepts
      have stepped := step_inGroup outer opening first
      obtain ⟨acceptsThere, behind⟩ := ih others
      rw [accepts_cons, after, stepped]
      exact ⟨⟨rfl, acceptsThere⟩, behind⟩

end Inside

/-! ## Behind a group -/

section Latest

variable {σ β : Type} [OperandSide σ β] (machine : Machine σ) (latest : Option Token)

/-- The same machine with another token that it has accepted last. -/
def withLatest : Machine σ :=
  { machine with latest := latest }

theorem answer_conclude_withLatest (position : Nat) :
    ((machine.withLatest latest).conclude (β := β) position).answer
      = (machine.conclude position).answer := by
  simp only [conclude, withLatest]
  split <;> rfl

/-- What comes of a token in its place does not depend on the token before it. -/
theorem accept_withLatest (token : Token) (position : Nat) :
    ((machine.withLatest latest).accept (β := β) token position).answer
        = (machine.accept token position).answer ∧
      ((machine.accept (β := β) token position).answer = .ok none →
        ((machine.withLatest latest).accept (β := β) token position).machine
          = (machine.accept (β := β) token position).machine) := by
  cases token with
  | number value | opening => exact ⟨rfl, fun _ => rfl⟩
  | sign | binary =>
      simp only [accept, takeOperator, withLatest]
      split
      · refine ⟨rfl, fun accepted => ?_⟩
        cases accepted
      · exact ⟨rfl, fun _ => rfl⟩
  | closing =>
      simp only [accept, leaveGroup, withLatest]
      split
      · refine ⟨rfl, fun accepted => ?_⟩
        cases accepted
      · refine ⟨rfl, fun accepted => ?_⟩
        cases accepted
      · exact ⟨rfl, fun _ => rfl⟩
  | endOfInput =>
      refine ⟨?_, fun accepted => ?_⟩
      · simp only [accept, Step.map, machine.answer_conclude_withLatest]
      · rw [accept, Step.map] at accepted
        split at accepted <;> cases accepted

variable {machine latest}

/-- What comes of any token does not either, if nothing else is said of a token out of place. -/
theorem step_withLatest
    (same : ∀ token position, Token.misplacement token latest position
      = token.misplacement machine.latest position) (token : Token) (position : Nat) :
    ((machine.withLatest latest).step (β := β) token position).answer
        = (machine.step token position).answer ∧
      ((machine.step (β := β) token position).answer = .ok none →
        ((machine.withLatest latest).step (β := β) token position).machine
          = (machine.step (β := β) token position).machine) := by
  by_cases placed : machine.expectation = token.place
  · have placedThere : (machine.withLatest latest).expectation = token.place := placed
    rw [step_of_placed placedThere, step_of_placed placed]
    exact machine.accept_withLatest latest token position
  · have misplacedThere : (machine.withLatest latest).expectation ≠ token.place := placed
    rw [step_of_misplaced _ token position placed,
      step_of_misplaced _ token position misplacedThere]
    refine ⟨?_, fun accepted => ?_⟩
    · show Except.error (Failure.grammar (token.misplacement latest position)) = _
      rw [same]
      rfl
    · cases accepted

end Latest

end Machine

/-- **Two machines that remember different tokens answer alike**, if nothing else is said of a
token out of place. -/
theorem runFrom_withLatest {σ β : Type} [OperandSide σ β] {machine : Machine σ}
    {latest : Option Token}
    (same : ∀ token position, Token.misplacement token latest position
      = token.misplacement machine.latest position) (position : Nat) (stream : List Item) :
    (runFrom (β := β) (machine.withLatest latest) position stream).answer
      = (runFrom (β := β) machine position stream).answer := by
  match stream with
  | [] =>
      have ended := (Machine.step_withLatest (β := β) same .endOfInput position).1
      rw [Machine.step_endOfInput, Machine.step_endOfInput] at ended
      rw [runFrom_nil, runFrom_nil]
      simp only [Step.map] at ended
      split at ended <;> split at ended <;> simp_all
  | .error error :: rest => rfl
  | .ok (token, place) :: rest =>
      obtain ⟨sameAnswer, sameMachine⟩ := Machine.step_withLatest (β := β) same token place
      cases answered : (machine.step (β := β) token place).answer with
      | error failure =>
          rw [runFrom_of_error answered, runFrom_of_error (sameAnswer.trans answered)]
      | ok result =>
          cases result with
          | some value => rw [runFrom_of_some answered, runFrom_of_some (sameAnswer.trans answered)]
          | none =>
              rw [runFrom_of_none answered, runFrom_of_none (sameAnswer.trans answered),
                sameMachine answered]

/-! ## Groups with a value -/

/-- Nothing is said of a closing parenthesis that is not said of a number. -/
theorem Token.misplacement_closing_latest (value : Float) (token : Token) (position : Nat) :
    token.misplacement (some .closing) position
      = token.misplacement (some (.number value)) position := by
  cases token <;> rfl

/-- A stream with a result and without an end is one of tokens that are all accepted. -/
theorem exists_accepts_of_runFrom {σ β : Type} [OperandSide σ β] {machine : Machine σ}
    {position : Nat} {stream : List Item} {result : β}
    (unended : ∀ place, .ok (.endOfInput, place) ∉ stream)
    (answered : (runFrom machine position stream).answer = .ok result) :
    ∃ tokens place, stream = streamOf tokens ∧ machine.Accepts (β := β) tokens ∧
      ((machine.after (β := β) tokens).atEnd place).answer = .ok result := by
  induction stream generalizing machine position with
  | nil => exact ⟨[], position, rfl, machine.accepts_nil, answered⟩
  | cons item rest ih =>
      obtain error | ⟨token, place⟩ := item
      · cases answered
      cases stepped : (machine.step (β := β) token place).answer with
      | error failure =>
          rw [runFrom_of_error stepped] at answered
          cases answered
      | ok value =>
          cases value with
          | some value =>
              cases Machine.eq_endOfInput_of_some stepped
              exact absurd List.mem_cons_self (unended place)
          | none =>
              rw [runFrom_of_none stepped] at answered
              obtain ⟨tokens, final, rfl, accepts, ended⟩ :=
                ih (fun place member => unended place (List.mem_cons_of_mem _ member)) answered
              exact ⟨(token, place) :: tokens, final, rfl,
                Machine.accepts_cons.mpr ⟨stepped, accepts⟩, ended⟩

namespace Machine

variable {inner : Machine ValueStack}

/-- A machine that has a value at the end has nothing but that value to leave to a group. -/
theorem leaveGroup_of_atEnd {position : Nat} {value : Float}
    (ended : (inner.atEnd position).answer = .ok value) (outer : Machine ValueStack)
    (opening closing : Nat) :
    inner.expectation = .operator ∧
      (inner.inGroup outer opening).leaveGroup (β := Float) closing
        = ⟨.ok none, inner.callsInside,
          { side := outer.side.push value
            waiting := outer.waiting
            expectation := .operator
            latest := some .closing }⟩ := by
  by_cases complete : inner.expectation = .operator
  · rw [atEnd_of_placed complete] at ended
    refine ⟨complete, ?_⟩
    cases replayed : replay inner.side inner.callsInside with
    | error failure =>
        rw [inner.conclude_of_replay_error replayed] at ended
        cases ended
    | ok later =>
        cases dropped : inner.waiting.dropWhile (!·.isBoundary) with
        | cons boundary below =>
            rw [inner.conclude_of_unclosed replayed dropped] at ended
            cases ended
        | nil =>
            rw [inner.conclude_of_replay_ok replayed dropped] at ended
            have replayedThere := replay_callsInside_inGroup outer opening replayed
            have droppedThere : (inner.inGroup outer opening).waiting.dropWhile (!·.isBoundary)
                = .of .opening opening :: outer.waiting := by
              rw [dropWhile_inGroup, dropped, List.nil_append]
            rw [leaveGroup_of_replay_ok _ replayedThere droppedThere, callsInside_inGroup]
            obtain ⟨values⟩ := later
            cases values with
            | nil => cases ended
            | cons top below =>
                cases below with
                | nil =>
                    cases ended
                    rfl
                | cons other others => cases ended
  · rw [atEnd_of_misplaced complete] at ended
    cases ended

/-- **A group with a value is accepted wherever an operand is awaited**, and leaves its value
and nothing else. -/
theorem after_group {tokens : List (Token × Nat)}
    (accepts : (start ({} : ValueStack)).Accepts (β := Float) tokens) {place : Nat} {value : Float}
    (ended : (((start ({} : ValueStack)).after (β := Float) tokens).atEnd place).answer = .ok value)
    {outer : Machine ValueStack} (expected : outer.expectation = .operand)
    (opening closing : Nat) :
    outer.Accepts (β := Float) ((.opening, opening) :: (tokens ++ [(.closing, closing)])) ∧
      outer.after (β := Float) ((.opening, opening) :: (tokens ++ [(.closing, closing)]))
        = { outer with
            side := outer.side.push value
            expectation := .operator
            latest := some .closing } := by
  obtain ⟨acceptsThere, behind⟩ := after_inGroup outer opening accepts
  obtain ⟨complete, left⟩ := leaveGroup_of_atEnd ended outer opening closing
  have closed : (((start ({} : ValueStack)).after (β := Float) tokens).inGroup outer opening).step
      (β := Float) .closing closing
        = ⟨.ok none, ((start ({} : ValueStack)).after (β := Float) tokens).callsInside,
          { outer with
            side := outer.side.push value
            expectation := .operator
            latest := some .closing }⟩ := by
    have placed : (((start ({} : ValueStack)).after (β := Float) tokens).inGroup outer
        opening).expectation = Token.closing.place := complete
    rw [step_of_placed placed]
    exact left
  rw [accepts_cons, after, step_opening opening expected, accepts_append, after_append, behind,
    accepts_cons, after, closed]
  exact ⟨⟨rfl, acceptsThere, rfl, accepts_nil _⟩, rfl⟩

theorem expectation_after_of_awaited {tokens : List (Token × Nat)}
    (accepts : (start ({} : ValueStack)).Accepts (β := Float) tokens)
    (awaited : ∀ last ∈ lastToken tokens, last.awaitsOperand = true) :
    ((start ({} : ValueStack)).after (β := Float) tokens).expectation = .operand := by
  rw [(tracks_after _ accepts).expectation_eq, Expectation.behind_eq_operand_iff, awaitsAfter_iff]
  exact awaited

/-- A run over a group with a value answers as one over a number with that value. -/
theorem runFrom_group {tokens : List (Token × Nat)}
    (accepts : (start ({} : ValueStack)).Accepts (β := Float) tokens) {place : Nat} {value : Float}
    (ended : (((start ({} : ValueStack)).after (β := Float) tokens).atEnd place).answer = .ok value)
    {outer : Machine ValueStack} (expected : outer.expectation = .operand)
    (opening closing position : Nat) (behind : List Item) :
    (runFrom (β := Float) outer position
        (streamOf ((.opening, opening) :: (tokens ++ [(.closing, closing)])) ++ behind)).answer
      = (runFrom (β := Float) outer position (.ok (.number value, closing) :: behind)).answer := by
  obtain ⟨acceptsGroup, leaves⟩ := after_group accepts ended expected opening closing
  have taken : outer.step (β := Float) (.number value) closing = outer.takeNumber value closing :=
    step_of_placed expected closing
  rw [runFrom_of_accepts acceptsGroup, leaves, lastPlace_cons, lastPlace_concat,
    runFrom_of_none (congrArg Step.answer taken), taken]
  show (runFrom ((outer.takeNumber (β := Float) value closing).machine.withLatest (some .closing))
    closing behind).answer = _
  exact runFrom_withLatest (fun token position => token.misplacement_closing_latest value position)
    closing behind

end Machine

open Machine in
/-- **A group stands for its value.**  Where the tokens before it await an operand, a group
whose inside has a value can be replaced by a number with that value, at the place of the
closing parenthesis, and whatever comes behind, the answer is the same.  Every token inside
finds what it would find in a fresh machine on top of the boundary, so nothing below the
boundary is touched, and the closing parenthesis leaves one more value and nothing else. -/
theorem group_stands_for_value (before : List (Token × Nat)) (inside behind : List Item)
    (opening closing : Nat) (value : Float)
    (noEnd : ∀ placed ∈ before, placed.1 ≠ .endOfInput)
    (awaited : ∀ last ∈ lastToken before, last.awaitsOperand = true)
    (unended : ∀ place, .ok (.endOfInput, place) ∉ inside)
    (answered : (valueRun inside).answer = .ok value) :
    (valueRun (streamOf before
        ++ .ok (.opening, opening) :: (inside ++ .ok (.closing, closing) :: behind))).answer
      = (valueRun (streamOf before ++ .ok (.number value, closing) :: behind)).answer ∧
    ∃ tokens, inside = streamOf tokens ∧
      ∀ outer : Machine ValueStack, outer.expectation = .operand →
        outer.Accepts (β := Float) ((.opening, opening) :: (tokens ++ [(.closing, closing)])) ∧
        (∀ front back, tokens = front ++ back →
          outer.after (β := Float) ((.opening, opening) :: front)
            = ((start ({} : ValueStack)).after (β := Float) front).inGroup outer opening) ∧
        outer.after (β := Float) ((.opening, opening) :: (tokens ++ [(.closing, closing)]))
          = { outer with
              side := outer.side.push value
              expectation := .operator
              latest := some .closing } := by
  obtain ⟨tokens, place, rfl, accepts, ended⟩ := exists_accepts_of_runFrom unended answered
  refine ⟨?_, tokens, rfl, fun outer expected => ?_⟩
  · by_cases acceptsBefore : (start ({} : ValueStack)).Accepts (β := Float) before
    · have expected := expectation_after_of_awaited acceptsBefore awaited
      have regrouped : (.ok (.opening, opening)
          :: (streamOf tokens ++ .ok (.closing, closing) :: behind) : List Item)
            = streamOf ((.opening, opening) :: (tokens ++ [(.closing, closing)])) ++ behind := by
        simp [streamOf]
      rw [regrouped]
      exact ((runFrom_of_accepts acceptsBefore 0 _).trans
        (runFrom_group accepts ended expected opening closing _ behind)).trans
        (runFrom_of_accepts acceptsBefore 0 _).symm
    · obtain ⟨front, token, stop, failure, stops⟩ := exists_stop_of_not_accepts noEnd acceptsBefore
      exact (runFrom_of_stopsAt stops 0 _).trans (runFrom_of_stopsAt stops 0 _).symm
  · obtain ⟨acceptsGroup, leaves⟩ := after_group accepts ended expected opening closing
    refine ⟨acceptsGroup, fun front back cut => ?_, leaves⟩
    subst cut
    obtain ⟨acceptsFront, -⟩ := accepts_append.mp accepts
    rw [after, step_opening opening expected]
    exact (after_inGroup outer opening acceptsFront).2

/-- The group in `(-(1+3)2` stands for the four in `(-4 2`: a number follows where an operator
has to, and that is said of it in both. -/
theorem group_stands_for_four :
    (valueRun (streamOf [(.number 1, 3), (.binary .add, 4), (.number 3, 5)])).answer = .ok 4 ∧
      (valueRun (streamOf [(.opening, 0), (.sign .minus, 1)]
        ++ .ok (.opening, 2) :: (streamOf [(.number 1, 3), (.binary .add, 4), (.number 3, 5)]
          ++ .ok (.closing, 6) :: [.ok (.number 2, 7)]))).answer
        = .error (.grammar (.missingOperator (Token.number 2).mention 7)) := by
  have answered : (valueRun (streamOf [(.number 1, 3), (.binary .add, 4), (.number 3, 5)])).answer
      = .ok 4 := by
    decide +kernel
  have same := (group_stands_for_value [(.opening, 0), (.sign .minus, 1)] _ [.ok (.number 2, 7)]
    2 6 4 (by simp) (by simp [lastToken, Token.awaitsOperand]) (by simp [streamOf]) answered).1
  exact ⟨answered, same.trans rfl⟩

end InfixArithmetic
