import InfixArithmetic.Proofs.Sketch.Prefix

/-!
# What is wrong, and where

The machine chooses an error in three places and looks at different parts of its state
for it.  What it finds can be said by the tokens alone: `Diagnosis` has one rule for each
way in which a token cannot stand behind others, and each rule looks at the token before
it or at the parentheses that are open, and at nothing else.

As long as tokens are accepted, the machine answers the next one with an error exactly
when a rule applies, and it is the error of that rule (`answer_iff_diagnosis`).  Together
with what is known of the beginnings of expressions this makes the machine report at the
first token that cannot be right, neither earlier nor later, and say what is wrong with
it (`machine_stops_at_first_impossible_token`).
-/

namespace InfixArithmetic

set_option autoImplicit false

/-! ## Rules for errors -/

namespace Token

/-- Whether a token completes an operand. -/
def completesOperand : Token → Bool
  | .number _ | .closing => true
  | .binary _ | .sign _ | .opening | .endOfInput => false

/-- Whether an operand can start with a token. -/
def startsOperand : Token → Bool
  | .number _ | .sign _ | .opening => true
  | .binary _ | .closing | .endOfInput => false

end Token

/-- What is wrong with a token at a position behind others. -/
inductive Diagnosis (before : List (Token × Nat)) (position : Nat) :
    Token → GrammarError → Prop where
  /-- An operand starts right behind an operand. -/
  | missingOperator {last token : Token} (behind : lastToken before = some last)
      (complete : last.completesOperand = true) (starts : token.startsOperand = true) :
    Diagnosis before position token (.missingOperator token.mention position)
  /-- A binary operator comes first, or behind an opening parenthesis, an operator or a
  sign. -/
  | missingLeft (op : BinaryOp) (awaited : ∀ last ∈ lastToken before, last.awaitsOperand = true) :
    Diagnosis before position (.binary op)
      (.missingOperand (Token.binary op).mention position)
  /-- A group closes as soon as it is opened. -/
  | emptyGroup (opened : lastToken before = some .opening) :
    Diagnosis before position .closing (.emptyGroup position)
  /-- A closing parenthesis comes first, or behind an operator or a sign. -/
  | missingInside (awaited : ∀ last ∈ lastToken before, last.awaitsOperand = true)
      (notOpened : lastToken before ≠ some .opening) :
    Diagnosis before position .closing (.missingOperand "')'" position)
  /-- A closing parenthesis comes behind an operand while no group is open. -/
  | unmatchedClosing {last : Token} (behind : lastToken before = some last)
      (complete : last.completesOperand = true) (closed : openGroups before = []) :
    Diagnosis before position .closing (.unmatchedClosing position)
  /-- There is nothing before the end. -/
  | emptyExpression (nothing : before = []) :
    Diagnosis before position .endOfInput (.emptyExpression position)
  /-- The end comes behind an opening parenthesis, an operator or a sign. -/
  | missingAtEnd {last : Token} (behind : lastToken before = some last)
      (awaited : last.awaitsOperand = true) :
    Diagnosis before position .endOfInput (.missingOperand "end of input" position)
  /-- The end comes behind an operand while a group is open. -/
  | unclosedOpening {last : Token} {opening : Nat} {outer : List Nat}
      (behind : lastToken before = some last) (complete : last.completesOperand = true)
      (opened : openGroups before = opening :: outer) :
    Diagnosis before position .endOfInput (.unclosedOpening opening)

/-! ## What the last token tells -/

theorem Token.place_of_startsOperand {token : Token} (starts : token.startsOperand = true) :
    token.place = .operand := by
  cases token with
  | number | sign | opening => rfl
  | binary | closing | endOfInput => cases starts

theorem Token.awaitsOperand_of_completesOperand {token : Token}
    (complete : token.completesOperand = true) : token.awaitsOperand = false := by
  cases token with
  | number | closing => rfl
  | binary | sign | opening | endOfInput => cases complete

theorem lastToken_eq_none_iff {tokens : List (Token × Nat)} :
    lastToken tokens = none ↔ tokens = [] := by
  rw [lastToken, Option.map_eq_none_iff, List.getLast?_eq_none_iff]

theorem ne_endOfInput_of_lastToken {tokens : List (Token × Nat)} {last : Token}
    (noEnd : ∀ placed ∈ tokens, placed.1 ≠ .endOfInput) (behind : lastToken tokens = some last) :
    last ≠ .endOfInput := by
  obtain ⟨placed, found, rfl⟩ := Option.map_eq_some_iff.mp behind
  exact noEnd placed (List.mem_of_getLast? found)

/-- Where no operand is awaited, one is complete. -/
theorem exists_completesOperand {latest : Option Token} (notEnd : latest ≠ some .endOfInput)
    (complete : awaitsAfter latest = false) :
    ∃ last, latest = some last ∧ last.completesOperand = true := by
  cases latest with
  | none => cases complete
  | some last =>
      refine ⟨last, rfl, ?_⟩
      cases last with
      | number | closing => rfl
      | binary | sign | opening => cases complete
      | endOfInput => exact absurd rfl notEnd

/-- Behind tokens without an end, an operator is expected behind a complete operand only. -/
theorem exists_completesOperand_of_behind {tokens : List (Token × Nat)}
    (noEnd : ∀ placed ∈ tokens, placed.1 ≠ .endOfInput)
    (expected : Expectation.behind (lastToken tokens) = .operator) :
    ∃ last, lastToken tokens = some last ∧ last.completesOperand = true := by
  refine exists_completesOperand (fun behind => ne_endOfInput_of_lastToken noEnd behind rfl) ?_
  rw [← Bool.not_eq_true, ← Expectation.behind_eq_operand_iff, expected]
  decide

namespace Machine

/-! ## Answers to tokens in their place -/

section Placed

variable {machine : Machine ReversePolish} {position : Nat} {failure : Failure}

/-- Everything but a closing parenthesis and the end is accepted in its place. -/
theorem accepted_of_placed {token : Token} (placed : machine.expectation = token.place)
    (notClosing : token ≠ .closing) (notEnd : token ≠ .endOfInput) :
    (machine.step (β := List Token) token position).answer = .ok none := by
  rw [step_of_placed placed]
  cases token with
  | number | opening => rfl
  | sign | binary =>
      obtain ⟨page, written⟩ := machine.side.exists_replay (machine.callsBefore (.of _ position))
      rw [accept, machine.takeOperator_of_replay_ok written]
  | closing => exact absurd rfl notClosing
  | endOfInput => exact absurd rfl notEnd

theorem closing_fails_iff (placed : machine.expectation = Token.closing.place) :
    (machine.step (β := List Token) .closing position).answer = .error failure ↔
      failure = .grammar (.unmatchedClosing position) ∧ boundaries machine.waiting = [] := by
  obtain ⟨page, written⟩ := machine.side.exists_replay machine.callsInside
  rw [step_of_placed placed, accept]
  cases dropped : machine.waiting.dropWhile (!·.isBoundary) with
  | nil =>
      rw [machine.leaveGroup_of_unmatched written dropped, boundaries_eq_nil dropped]
      simp [eq_comm]
  | cons boundary below =>
      rw [machine.leaveGroup_of_replay_ok written dropped, boundaries_eq_cons dropped]
      simp

theorem endOfInput_fails_iff (placed : machine.expectation = Token.endOfInput.place) :
    (machine.step (β := List Token) .endOfInput position).answer = .error failure ↔
      ∃ opening outer, failure = .grammar (.unclosedOpening opening) ∧
        boundaries machine.waiting = opening :: outer := by
  obtain ⟨page, written⟩ := machine.side.exists_replay machine.callsInside
  rw [step_of_placed placed, accept, Step.map]
  cases dropped : machine.waiting.dropWhile (!·.isBoundary) with
  | nil =>
      rw [machine.conclude_of_replay_ok written dropped, boundaries_eq_nil dropped]
      simp [OperandSide.result]
  | cons boundary below =>
      rw [machine.conclude_of_unclosed written dropped, boundaries_eq_cons dropped]
      simp [eq_comm]

end Placed

end Machine

/-! ## Errors and rules -/

theorem Token.misplacement_of_startsOperand {token : Token}
    (starts : token.startsOperand = true) (latest : Option Token) (position : Nat) :
    token.misplacement latest position = .missingOperator token.mention position := by
  cases token with
  | number | sign | opening => rfl
  | binary | closing | endOfInput => cases starts

theorem Token.misplacement_closing {latest : Option Token} (notOpened : latest ≠ some .opening)
    (position : Nat) :
    Token.closing.misplacement latest position = .missingOperand "')'" position := by
  unfold misplacement
  split
  · cases ‹Token.closing.place = .operand›
  · split
    · exact absurd rfl notOpened
    · cases ‹Token.closing = .endOfInput›
    · rfl

/-- A token that is out of place breaks the rule for its kind. -/
theorem diagnosis_of_misplaced {before : List (Token × Nat)} {token : Token}
    (noEnd : ∀ placed ∈ before, placed.1 ≠ .endOfInput)
    (misplaced : Expectation.behind (lastToken before) ≠ token.place) (position : Nat) :
    Diagnosis before position token (token.misplacement (lastToken before) position) := by
  have notEnd : lastToken before ≠ some .endOfInput :=
    fun behind => ne_endOfInput_of_lastToken noEnd behind rfl
  cases awaited : awaitsAfter (lastToken before) with
  | false =>
      obtain ⟨last, behind, complete⟩ := exists_completesOperand notEnd awaited
      cases token with
      | number | opening | sign => exact .missingOperator behind complete rfl
      | binary | closing | endOfInput =>
          exact absurd (by rw [Expectation.behind, awaited]; rfl) misplaced
  | true =>
      have awaits := awaitsAfter_iff.mp awaited
      cases token with
      | number | opening | sign =>
          exact absurd (by rw [Expectation.behind, awaited]; rfl) misplaced
      | binary op => exact .missingLeft op awaits
      | closing =>
          by_cases opened : lastToken before = some .opening
          · rw [opened]
            exact .emptyGroup opened
          · rw [Token.misplacement_closing opened]
            exact .missingInside awaits opened
      | endOfInput =>
          cases behind : lastToken before with
          | none => exact .emptyExpression (lastToken_eq_none_iff.mp behind)
          | some last => exact .missingAtEnd behind (awaits last behind)

theorem Expectation.behind_eq_operand {latest : Option Token}
    (awaited : ∀ last ∈ latest, last.awaitsOperand = true) :
    Expectation.behind latest = .operand :=
  behind_eq_operand_iff.mpr (awaitsAfter_iff.mpr awaited)

theorem Expectation.behind_eq_operator {last : Token} (complete : last.completesOperand = true) :
    Expectation.behind (some last) = .operator :=
  if_neg (by
    show ¬ last.awaitsOperand = true
    rw [Token.awaitsOperand_of_completesOperand complete]
    exact Bool.false_ne_true)

theorem Expectation.behind_ne_place {latest : Option Token}
    (awaited : ∀ last ∈ latest, last.awaitsOperand = true) {token : Token}
    (place : token.place = .operator) : Expectation.behind latest ≠ token.place := by
  rw [behind_eq_operand awaited, place]
  decide

namespace Machine

variable {machine : Machine ReversePolish} {before : List (Token × Nat)} {token : Token}
  {position : Nat}

theorem Tracks.diagnosis_of_failed
    (tracks : machine.Tracks (lastToken before) (openGroups before))
    (noEnd : ∀ placed ∈ before, placed.1 ≠ .endOfInput) {failure : Failure}
    (failed : (machine.step (β := List Token) token position).answer = .error failure) :
    ∃ error, failure = .grammar error ∧ Diagnosis before position token error := by
  by_cases placed : Expectation.behind (lastToken before) = token.place
  · have placedThere := tracks.expectation_eq.trans placed
    by_cases closing : token = .closing
    · subst closing
      obtain ⟨last, behind, complete⟩ := exists_completesOperand_of_behind noEnd placed
      obtain ⟨rfl, closed⟩ := (closing_fails_iff placedThere).mp failed
      rw [tracks.opened_eq] at closed
      exact ⟨_, rfl, .unmatchedClosing behind complete closed⟩
    by_cases ended : token = .endOfInput
    · subst ended
      obtain ⟨last, behind, complete⟩ := exists_completesOperand_of_behind noEnd placed
      obtain ⟨opening, outer, rfl, opened⟩ := (endOfInput_fails_iff placedThere).mp failed
      rw [tracks.opened_eq] at opened
      exact ⟨_, rfl, .unclosedOpening behind complete opened⟩
    · rw [accepted_of_placed placedThere closing ended] at failed
      cases failed
  · rw [tracks.answer_of_misplaced placed] at failed
    cases failed
    exact ⟨_, rfl, diagnosis_of_misplaced noEnd placed position⟩

theorem Tracks.failed_of_diagnosis
    (tracks : machine.Tracks (lastToken before) (openGroups before)) {error : GrammarError}
    (diagnosis : Diagnosis before position token error) :
    (machine.step (β := List Token) token position).answer = .error (.grammar error) := by
  cases diagnosis with
  | missingOperator behind complete starts =>
      have misplaced : Expectation.behind (lastToken before) ≠ token.place := by
        rw [behind, Expectation.behind_eq_operator complete, Token.place_of_startsOperand starts]
        decide
      rw [tracks.answer_of_misplaced misplaced, Token.misplacement_of_startsOperand starts]
  | missingLeft op awaited =>
      exact tracks.answer_of_misplaced (Expectation.behind_ne_place awaited rfl) position
  | emptyGroup opened =>
      rw [opened] at tracks
      exact tracks.answer_of_misplaced (by decide) position
  | missingInside awaited notOpened =>
      rw [tracks.answer_of_misplaced (Expectation.behind_ne_place awaited rfl),
        Token.misplacement_closing notOpened]
  | unmatchedClosing behind complete closed =>
      rw [behind, closed] at tracks
      have placed := tracks.expectation_eq.trans (Expectation.behind_eq_operator complete)
      exact (closing_fails_iff placed).mpr ⟨rfl, tracks.opened_eq⟩
  | emptyExpression nothing =>
      subst nothing
      exact tracks.answer_of_misplaced (by decide) position
  | missingAtEnd behind awaited =>
      rw [behind] at tracks
      have misplaced : Expectation.behind (some _) ≠ Token.endOfInput.place :=
        Expectation.behind_ne_place (by rintro last ⟨⟩; exact awaited) rfl
      exact tracks.answer_of_misplaced misplaced position
  | unclosedOpening behind complete opened =>
      rw [behind, opened] at tracks
      have placed := tracks.expectation_eq.trans (Expectation.behind_eq_operator complete)
      exact (endOfInput_fails_iff placed).mpr ⟨_, _, rfl, tracks.opened_eq⟩

/-- **Behind accepted tokens an error is the one that a rule names.** -/
theorem answer_iff_diagnosis {page : ReversePolish} (accepts : (start page).Accepts before)
    {failure : Failure} :
    (((start page).after before).step (β := List Token) token position).answer
        = .error failure ↔
      ∃ error, failure = .grammar error ∧ Diagnosis before position token error := by
  have tracks := tracks_after page accepts
  constructor
  · exact tracks.diagnosis_of_failed (ne_endOfInput_of_accepts accepts)
  · rintro ⟨error, rfl, diagnosis⟩
    exact tracks.failed_of_diagnosis diagnosis

end Machine

/-! ## Errors of runs -/

theorem Token.mention_ne_endOfInput {token : Token} (notEnd : token ≠ .endOfInput) :
    token.mention ≠ "end of input" := by
  intro same
  have letters := congrArg String.toList same
  cases token with
  | endOfInput => exact notEnd rfl
  | number | binary | sign | opening | closing => simp [mention] at letters

/-- **A grammatical error of a run is the one of a rule**, for the first item that is not
accepted, or for the end of a stream that runs out. -/
theorem diagnosis_of_polishRun {stream : List Item} {error : GrammarError}
    (failed : (polishRun stream).answer = .error (.grammar error)) :
    ∃ front token place rest, stream = streamOf front ++ rest ∧
      (Machine.start ({} : ReversePolish)).Accepts front ∧
      Diagnosis front place token error ∧
      ((∃ others, rest = .ok (token, place) :: others) ∨ (rest = [] ∧ token = .endOfInput)) := by
  obtain ⟨front, rest, rfl, accepts, stop⟩ := exists_stop_of_runFrom failed
  obtain ⟨_, _, -, same⟩ | ⟨token, place, others, rfl, answered⟩ | ⟨rfl, place, answered⟩ := stop
  · cases same
  · obtain ⟨other, same, diagnosis⟩ := (Machine.answer_iff_diagnosis accepts).mp answered
    cases same
    exact ⟨front, token, place, _, rfl, accepts, diagnosis, .inl ⟨others, rfl⟩⟩
  · have ended : (((Machine.start ({} : ReversePolish)).after front).step (β := List Token)
        .endOfInput place).answer = .error (.grammar error) := by
      rw [Machine.step_endOfInput, Step.map, answered]
    obtain ⟨other, same, diagnosis⟩ := (Machine.answer_iff_diagnosis accepts).mp ended
    cases same
    exact ⟨front, .endOfInput, place, [], rfl, accepts, diagnosis, .inr ⟨rfl, rfl⟩⟩

/-! ## The first impossible token -/

theorem eq_of_ended {tokens front back : List (Token × Nat)} {token : Token}
    {position place : Nat} (noEnd : ∀ placed ∈ tokens, placed.1 ≠ .endOfInput)
    (cut : tokens ++ [(.endOfInput, position)] = front ++ (token, place) :: back) :
    (token = .endOfInput ∧ front = tokens) ∨
      (token ≠ .endOfInput ∧ ∃ others, tokens = front ++ (token, place) :: others) := by
  obtain rfl | ⟨others, last, rfl⟩ := List.eq_nil_or_concat back
  · obtain ⟨rfl, same⟩ := List.append_inj' cut rfl
    cases same
    exact .inl ⟨rfl, rfl⟩
  · rw [List.concat_eq_append, ← List.cons_append, ← List.append_assoc] at cut
    obtain ⟨rfl, -⟩ := List.append_inj' cut rfl
    refine .inr ⟨?_, others, rfl⟩
    exact noEnd (token, place) (List.mem_append_right front List.mem_cons_self)

section Stops

variable {page : ReversePolish} {tokens front : List (Token × Nat)} {token : Token}
  {position place : Nat} {failure : Failure}

/-- Where the machine stops before the end, no expression goes on. -/
theorem Machine.StopsAt.impossible
    (stops : (start page).StopsAt tokens front token place failure)
    (notEnd : token ≠ .endOfInput) :
    ¬ ∃ behind expression, Derives .sum (front ++ (token, place) :: behind) expression :=
  (step_fails_iff stops.accepts notEnd place).mp ⟨failure, stops.failed⟩

/-- Wherever the machine stops, the tokens are no expression. -/
theorem Machine.StopsAt.not_derives (noEnd : ∀ placed ∈ tokens, placed.1 ≠ .endOfInput)
    (stops : (start page).StopsAt (tokens ++ [(.endOfInput, position)]) front token place
      failure) :
    ¬ ∃ expression, Derives .sum tokens expression := by
  obtain ⟨back, cut⟩ := stops.cut
  obtain ⟨rfl, rfl⟩ | ⟨notEnd, others, rfl⟩ := eq_of_ended noEnd cut
  · exact (end_fails_iff stops.accepts place).mp ⟨failure, stops.failed⟩
  · rintro ⟨expression, derived⟩
    exact stops.impossible notEnd ⟨others, expression, derived⟩

/-- If the tokens are no expression, the machine stops at one of them or at the end. -/
theorem Machine.exists_stopsAt (page : ReversePolish) (position : Nat)
    (noEnd : ∀ placed ∈ tokens, placed.1 ≠ .endOfInput)
    (unformed : ¬ ∃ expression, Derives .sum tokens expression) :
    ∃ front token place failure,
      (start page).StopsAt (tokens ++ [(.endOfInput, position)]) front token place failure := by
  by_cases accepted : (start page).Accepts tokens
  · obtain ⟨failure, failed⟩ := (end_fails_iff accepted position).mpr unformed
    exact ⟨tokens, .endOfInput, position, failure, ⟨[], rfl⟩, accepted, failed⟩
  · obtain ⟨front, token, place, failure, ⟨back, rfl⟩, accepts, failed⟩ :=
      exists_stop_of_not_accepts noEnd accepted
    exact ⟨front, token, place, failure, ⟨back ++ [(.endOfInput, position)], by simp⟩, accepts,
      failed⟩

/-- One rule, and no other, names the error. -/
theorem Machine.StopsAt.diagnosis
    (stops : (start page).StopsAt tokens front token place failure) :
    ∃ error, failure = .grammar error ∧
      ∀ other, Diagnosis front place token other ↔ other = error := by
  obtain ⟨error, rfl, diagnosis⟩ := (answer_iff_diagnosis stops.accepts).mp stops.failed
  refine ⟨error, rfl, fun other => ⟨fun diagnosisOther => ?_, ?_⟩⟩
  · have answered := (answer_iff_diagnosis stops.accepts).mpr ⟨other, rfl, diagnosisOther⟩
    rw [stops.failed] at answered
    injection answered with same
    injection same with same
    exact same.symm
  · rintro rfl
    exact diagnosis

end Stops

/-- **The machine stops at the first token that cannot be right and says what is wrong with
it.**  Tokens are given to a fresh machine, and the end behind them.  Unless they are an
expression, one of these is the first to fail.  What comes before it begins an expression;
no expression begins with it too, or none ends there if it is the end; and the error is the
only one that a rule names for it. -/
theorem machine_stops_at_first_impossible_token (tokens : List (Token × Nat)) (position : Nat)
    (noEnd : ∀ placed ∈ tokens, placed.1 ≠ .endOfInput) :
    ((∃ front token place failure, (Machine.start ({} : ReversePolish)).StopsAt
        (tokens ++ [(.endOfInput, position)]) front token place failure) ↔
      ¬ ∃ expression, Derives .sum tokens expression) ∧
    ∀ front token place failure, (Machine.start ({} : ReversePolish)).StopsAt
        (tokens ++ [(.endOfInput, position)]) front token place failure →
      (∃ behind expression, Derives .sum (front ++ behind) expression) ∧
      (token ≠ .endOfInput →
        ¬ ∃ behind expression, Derives .sum (front ++ (token, place) :: behind) expression) ∧
      (token = .endOfInput → front = tokens ∧ ¬ ∃ expression, Derives .sum tokens expression) ∧
      ∃ error, failure = .grammar error ∧
        ∀ other, Diagnosis front place token other ↔ other = error := by
  refine ⟨⟨?_, Machine.exists_stopsAt {} position noEnd⟩, ?_⟩
  · rintro ⟨front, token, place, failure, stops⟩
    exact stops.not_derives noEnd
  · intro front token place failure stops
    refine ⟨Machine.begins_of_accepts stops.accepts, stops.impossible, ?_, stops.diagnosis⟩
    rintro rfl
    obtain ⟨back, cut⟩ := stops.cut
    obtain ⟨-, rfl⟩ | ⟨notEnd, -⟩ := eq_of_ended noEnd cut
    · exact ⟨rfl, stops.not_derives noEnd⟩
    · exact absurd rfl notEnd

/-- The tokens of `((2*`, which begin an expression. -/
def openFactorTokens : List (Token × Nat) :=
  [(.opening, 0), (.opening, 1), (.number 2, 2), (.binary .mul, 3)]

/-- In `((2*)` the closing parenthesis is at fault and not the end: `((2*` can be completed,
and `((2*)` cannot. -/
theorem machine_stops_at_missing_factor :
    (∀ placed ∈ openFactorTokens ++ [(.closing, 4)], placed.1 ≠ .endOfInput) ∧
      (Machine.start ({} : ReversePolish)).StopsAt
        (openFactorTokens ++ [(.closing, 4)] ++ [(.endOfInput, 5)]) openFactorTokens .closing 4
        (.grammar (.missingOperand "')'" 4)) ∧
      (∃ behind expression, Derives .sum (openFactorTokens ++ behind) expression) ∧
      ¬ ∃ behind expression, Derives .sum (openFactorTokens ++ (.closing, 4) :: behind)
        expression := by
  have noEnd : ∀ placed ∈ openFactorTokens ++ [(.closing, 4)], placed.1 ≠ .endOfInput := by
    simp [openFactorTokens]
  have accepts : (Machine.start ({} : ReversePolish)).Accepts openFactorTokens := by
    simp only [openFactorTokens, Machine.accepts_cons]
    exact ⟨rfl, rfl, rfl, rfl, Machine.accepts_nil _⟩
  have stops : (Machine.start ({} : ReversePolish)).StopsAt
      (openFactorTokens ++ [(.closing, 4)] ++ [(.endOfInput, 5)]) openFactorTokens .closing 4
      (.grammar (.missingOperand "')'" 4)) :=
    ⟨⟨[(.endOfInput, 5)], rfl⟩, accepts, rfl⟩
  obtain ⟨begins, impossible, -, -⟩ :=
    (machine_stops_at_first_impossible_token _ 5 noEnd).2 _ _ _ _ stops
  exact ⟨noEnd, stops, begins, impossible nofun⟩

end InfixArithmetic
