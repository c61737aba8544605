import InfixArithmetic.Proofs.Machine.Applied
import InfixArithmetic.Proofs.Machine.Groups
import InfixArithmetic.Proofs.TokenStream.Provenance

/-!
# Every failure points at what it is about

The place in a failure has come a long way: from the reading to a token, from the token to
an entry of the stack, and an entry can wait there for long.  Still it is the place of what
the failure is about, and this can be checked by looking at the source alone.
`Failure.PointsAt` says what stands there, with one rule for each kind of failure, given the
text before the place and the text behind.

Main statement: `failure_points_at_cause`, for every source and for either of its readings.
-/

namespace InfixArithmetic

set_option autoImplicit false

/-! ## Places -/

namespace Text

theorem eq_nil_of_byteLength_eq_zero {text : List Char} (empty : byteLength text = 0) :
    text = [] := by
  cases text with
  | nil => rfl
  | cons character rest =>
      have takesUp := character.utf8Size_pos
      rw [byteLength_cons] at empty
      omega

/-- At one place a text is cut in one way. -/
theorem append_inj_of_byteLength {before behind front back : List Char}
    (same : before ++ behind = front ++ back) (placed : byteLength before = byteLength front) :
    before = front ∧ behind = back := by
  obtain ⟨between, rfl, rfl⟩ | ⟨between, rfl, rfl⟩ := List.append_eq_append_iff.mp same
  all_goals
    rw [byteLength_append] at placed
    obtain rfl : between = [] := eq_nil_of_byteLength_eq_zero (by omega)
    simp

end Text

/-! ## What stands where a failure points -/

/-- What a failure is about, between the text before its place and the text that starts
there. -/
inductive Failure.PointsAt (before : List Char) : List Char → Failure → Prop where
  /-- A character that starts no lexeme, or a run of digits and points without a value. -/
  | flaw {behind : List Char} {error : ScanError} (flaw : Flaw before behind error) :
    PointsAt before behind (.scan error)
  /-- The end of a source of blanks. -/
  | emptyExpression (areBlank : ∀ blank ∈ before, Text.isBlank blank = true) :
    PointsAt before [] (.grammar (.emptyExpression (Text.byteLength before)))
  /-- The end of the source. -/
  | missingAtEnd :
    PointsAt before [] (.grammar (.missingOperand "end of input" (Text.byteLength before)))
  /-- The character that is quoted. -/
  | missingOperand {rest : List Char} (character : Char)
      (isOne : character ∈ ['*', '/', '%', ')']) :
    PointsAt before (character :: rest)
      (.grammar (.missingOperand (Token.inQuotes [character]) (Text.byteLength before)))
  /-- A number, with its value quoted. -/
  | missingBeforeNumber {run rest : List Char} {value : Float}
      (maximal : MaximalRun before run rest) (isLiteral : Literal.read run = .ok value) :
    PointsAt before (run ++ rest)
      (.grammar (.missingOperator (Token.inQuotes (Layout.plain.text value))
        (Text.byteLength before)))
  /-- An opening parenthesis, which is quoted. -/
  | missingBeforeGroup {rest : List Char} :
    PointsAt before ('(' :: rest)
      (.grammar (.missingOperator (Token.inQuotes ['(']) (Text.byteLength before)))
  /-- The closing parenthesis of a group of blanks. -/
  | emptyGroup {rest : List Char} (opened : LastShown '(' before) :
    PointsAt before (')' :: rest) (.grammar (.emptyGroup (Text.byteLength before)))
  /-- The first parenthesis that closes more than is open. -/
  | unmatchedClosing {rest : List Char} (opens : StaysOpen before)
      (exceeds : ¬ StaysOpen (before ++ [')'])) :
    PointsAt before (')' :: rest) (.grammar (.unmatchedClosing (Text.byteLength before)))
  /-- The last parenthesis that is never closed. -/
  | unclosedOpening {rest : List Char} (unclosed : StaysOpen rest)
      (last : ∀ front back, before ++ '(' :: rest = front ++ '(' :: back → StaysOpen back →
        front.length ≤ before.length) :
    PointsAt before ('(' :: rest) (.grammar (.unclosedOpening (Text.byteLength before)))
  /-- A division. -/
  | divisionByZero {rest : List Char} :
    PointsAt before ('/' :: rest) (.arithmetic (.divisionByZero (Text.byteLength before)))
  /-- A remainder. -/
  | moduloByZero {rest : List Char} :
    PointsAt before ('%' :: rest) (.arithmetic (.moduloByZero (Text.byteLength before)))
  /-- Any operator. -/
  | overflow {rest : List Char} (op : BinaryOp) :
    PointsAt before (op.symbol :: rest) (.arithmetic (.overflow (Text.byteLength before)))
  /-- A number that is multiplied with the group right before it. -/
  | overflowAtNumber {run rest : List Char} (closed : LastShown ')' before)
      (maximal : MaximalRun before run rest) :
    PointsAt before (run ++ rest) (.arithmetic (.overflow (Text.byteLength before)))
  /-- A group that is multiplied with the group right before it. -/
  | overflowAtGroup {rest : List Char} (closed : LastShown ')' before) :
    PointsAt before ('(' :: rest) (.arithmetic (.overflow (Text.byteLength before)))

namespace Failure.PointsAt

variable {before behind : List Char} {failure : Failure}

theorem position_eq (points : failure.PointsAt before behind) :
    failure.position = Text.byteLength before := by
  cases points with
  | flaw flaw => cases flaw <;> rfl
  | emptyExpression | missingAtEnd | missingOperand | missingBeforeNumber | missingBeforeGroup
  | emptyGroup | unmatchedClosing | unclosedOpening | divisionByZero | moduloByZero | overflow
  | overflowAtNumber | overflowAtGroup => rfl

/-- A failure points into the source or at its end. -/
theorem position_le {source : String} (points : failure.PointsAt before behind)
    (split : source.toList = before ++ behind) : failure.position ≤ source.utf8ByteSize := by
  rw [points.position_eq, ← Text.byteLength_toList, split, Text.byteLength_append]
  exact Nat.le_add_right _ _

end Failure.PointsAt

/-- Whether a failure points at what it is about, somewhere in a text. -/
def Failure.PointsInto (text : List Char) (failure : Failure) : Prop :=
  ∃ before behind, text = before ++ behind ∧ failure.PointsAt before behind

/-! ## Grammatical errors -/

section Grammar

variable {text rest : List Char} {place position : Nat} {lexemes : List (Lexeme × Nat)}
  {front back : List (Token × Nat)} {token : Token} {error : GrammarError}

/-- What is closed before a place was open there. -/
theorem SplitsUpTo.leavesOpen {before : List Char} {depth : Nat}
    (upTo : SplitsUpTo rest place (before ++ rest) position lexemes)
    (leaves : LeavesOpen (lexemeParentheses lexemes) depth) : LeavesOpen before depth := by
  have parentheses := upTo.filter_isParenthesis
  rw [List.filter_append, List.append_cancel_right_eq] at parentheses
  exact .of_filter (parentheses ▸ leaves)

theorem pointsInto_missingOperator (upTo : SplitsUpTo rest place text 0 lexemes)
    (drawn : Drawn none position lexemes front token back)
    (starts : token.startsOperand = true) (notSign : ∀ polarity, token ≠ .sign polarity) :
    Failure.PointsInto text (.grammar (.missingOperator token.mention position)) := by
  cases token with
  | number value =>
      obtain ⟨earlier, later, rfl⟩ := List.append_of_mem (drawn.mem_lexemes rfl nofun)
      obtain ⟨before, shown, behind, split, rfl, stands, -, -⟩ := upTo.exists_stands
      obtain ⟨maximal, isLiteral⟩ := stands.maximal
      exact ⟨before, _, split, .missingBeforeNumber maximal isLiteral⟩
  | opening =>
      obtain ⟨earlier, later, rfl⟩ := List.append_of_mem (drawn.mem_lexemes rfl nofun)
      obtain ⟨before, shown, behind, split, rfl, stands, -, -⟩ := upTo.exists_stands
      obtain rfl := stands.eq_symbol rfl
      exact ⟨before, _, split, .missingBeforeGroup⟩
  | sign polarity => exact absurd rfl (notSign polarity)
  | binary | closing | endOfInput => cases starts

theorem pointsInto_missingLeft (upTo : SplitsUpTo rest place text 0 lexemes) {op : BinaryOp}
    (drawn : Drawn none position lexemes front (.binary op) back)
    (awaited : ∀ last ∈ lastToken front, last.awaitsOperand = true)
    (notSum : op.symbol ∈ ['*', '/', '%', ')']) :
    Failure.PointsInto text (.grammar (.missingOperand (Token.binary op).mention position)) := by
  have shown : ∃ lexeme, (Token.binary op).lexeme? = some lexeme ∧
      lexeme.symbol? = some op.symbol := by
    cases op <;> exact ⟨_, rfl, rfl⟩
  obtain ⟨lexeme, shown, written⟩ := shown
  obtain ⟨earlier, later, rfl⟩ := List.append_of_mem (drawn.mem_of_awaited awaited shown)
  obtain ⟨before, shown, behind, split, rfl, stands, -, -⟩ := upTo.exists_stands
  obtain rfl := stands.eq_symbol written
  exact ⟨before, _, split, .missingOperand op.symbol notSum⟩

/-- A closing parenthesis stands at its place, behind the text of the lexemes before it. -/
theorem Drawn.exists_closing (drawn : Drawn none position lexemes front .closing back)
    (upTo : SplitsUpTo rest place text 0 lexemes) :
    ∃ before behind earlier, text = before ++ ')' :: behind ∧ position = Text.byteLength before ∧
      front = tokensAfter none earlier ∧
        SplitsUpTo (')' :: behind) position (before ++ ')' :: behind) 0 earlier := by
  obtain ⟨earlier, later, rfl, rfl⟩ := drawn.exists_of_closing
  obtain ⟨before, shown, behind, rfl, placed, stands, upToClosing, -⟩ := upTo.exists_stands
  obtain rfl := stands.eq_symbol rfl
  exact ⟨before, behind, earlier, rfl, placed, rfl, upToClosing⟩

/-- **What is wrong with a token of a source is where its error says.** -/
theorem pointsInto_of_drawn (upTo : SplitsUpTo rest place text 0 lexemes)
    (drawn : Drawn none position lexemes front token back)
    (accepts : (Machine.start ({} : ReversePolish)).Accepts front)
    (diagnosis : Diagnosis front position token error)
    (notSign : ∀ found place, error.Misses found place →
      ∀ polarity, found ≠ (Token.sign polarity).mention) :
    Failure.PointsInto text (.grammar error) := by
  cases diagnosis with
  | missingOperator behind complete starts =>
      refine pointsInto_missingOperator upTo drawn starts fun polarity isSign => ?_
      exact notSign _ _ (.inr rfl) polarity (congrArg Token.mention isSign)
  | missingLeft op awaited =>
      refine pointsInto_missingLeft upTo drawn awaited ?_
      cases op with
      | add => exact absurd rfl (notSign _ _ (.inl rfl) .plus)
      | sub => exact absurd rfl (notSign _ _ (.inl rfl) .minus)
      | mul | div | rem => decide
  | emptyGroup opened =>
      obtain ⟨before, behind, earlier, rfl, rfl, rfl, upToClosing⟩ := drawn.exists_closing upTo
      rw [lastToken_tokensAfter_none] at opened
      obtain ⟨others, lexeme, mark, rfl, shown⟩ := exists_of_latestAfter opened nofun
      cases shown
      exact ⟨before, _, rfl, .emptyGroup (upToClosing.lastShown rfl)⟩
  | missingInside awaited notOpened =>
      obtain ⟨before, behind, earlier, rfl, rfl, -, -⟩ := drawn.exists_closing upTo
      exact ⟨before, _, rfl, .missingOperand ')' (by decide)⟩
  | unmatchedClosing behind complete closed =>
      obtain ⟨before, behind, earlier, rfl, rfl, rfl, upToClosing⟩ := drawn.exists_closing upTo
      have leaves := Machine.leavesOpen_of_accepts accepts
      rw [closed, tokenParentheses_tokensAfter] at leaves
      have leavesBefore := upToClosing.leavesOpen leaves
      exact ⟨before, _, rfl, .unmatchedClosing leavesBefore.staysOpen
        leavesBefore.not_staysOpen_closing⟩
  | emptyExpression | missingAtEnd | unclosedOpening => exact absurd rfl drawn.ne_endOfInput

/-- **What is wrong at the end of a source is where its error says.** -/
theorem pointsInto_of_ended (upTo : SplitsUpTo [] place text 0 lexemes)
    (diagnosis : Diagnosis (tokensAfter none lexemes) place .endOfInput error) :
    Failure.PointsInto text (.grammar error) := by
  have placed : place = Text.byteLength text := by
    obtain ⟨before, rfl, placed, -⟩ := upTo.exists_before
    rw [placed, Nat.zero_add, List.append_nil]
  subst placed
  cases diagnosis with
  | missingOperator behind complete starts => cases starts
  | emptyExpression nothing =>
      cases eq_nil_of_tokensAfter_eq_nil nothing
      obtain ⟨blanks, rfl, areBlank⟩ := upTo.exists_blanks
      rw [List.append_nil]
      exact ⟨blanks, [], (List.append_nil _).symm, .emptyExpression areBlank⟩
  | missingAtEnd behind awaited => exact ⟨text, [], (List.append_nil _).symm, .missingAtEnd⟩
  | unclosedOpening behind complete opened =>
      have innermost : openGroups (tokensAfter none lexemes) = [] ++ _ :: _ := opened
      obtain ⟨front, back, seen, leaves⟩ := exists_of_openGroups innermost
      obtain ⟨earlier, later, rfl, rfl⟩ := (drawn_of_tokensAfter seen).exists_of_opening
      obtain ⟨before, shown, rest, rfl, rfl, stands, -, upToEnd⟩ := upTo.exists_stands
      obtain rfl := stands.eq_symbol rfl
      rw [tokenParentheses_tokensAfter] at leaves
      have leavesRest : LeavesOpen rest 0 :=
        SplitsUpTo.leavesOpen ((List.append_nil rest).symm ▸ upToEnd) leaves
      exact ⟨before, _, rfl, .unclosedOpening leavesRest.staysOpen
        fun _ _ same => length_le_of_staysOpen same leavesRest⟩

end Grammar

theorem pointsInto_of_grammar {source : String} {error : GrammarError}
    (refused : toReversePolish source = .error (.grammar error)) :
    Failure.PointsInto source.toList (.grammar error) := by
  obtain ⟨lexemes, rest, place, upTo, ⟨front, token, position, back, accepts, diagnosis, drawn⟩ |
    ⟨rfl, -, diagnosis⟩⟩ := diagnosis_of_source refused
  · exact pointsInto_of_drawn upTo drawn accepts diagnosis
      fun _ _ => ne_sign_of_toReversePolish refused
  · exact pointsInto_of_ended upTo diagnosis

/-! ## Errors of reading and of the arithmetic -/

theorem pointsInto_of_scan {source : String} {error : ScanError}
    (refused : toReversePolish source = .error (.scan error)) :
    Failure.PointsInto source.toList (.scan error) := by
  obtain ⟨lexemes, faulty⟩ := exists_faulty_of_mem_items (mem_of_polishRun_scan refused)
  obtain ⟨before, behind, split, flaw, -⟩ := faulty.firstFlaw
  exact ⟨before, behind, split, .flaw flaw⟩

/-- An operator without a result is written at its place, or it is the multiplication with a
group right before that place. -/
theorem pointsInto_of_arithmetic {source : String} {error : ArithmeticError}
    (failed : evaluate source = .error (.arithmetic error)) :
    Failure.PointsInto source.toList (.arithmetic error) := by
  obtain ⟨op, position, member, reason⟩ := exists_operator_of_valueRun failed
  obtain ⟨lexemes, rest, place, upTo, isToken⟩ := exists_upTo_of_mem_items member nofun
  obtain ⟨front, back, seen⟩ := List.append_of_mem isToken
  cases origin_of_tokensAfter rfl seen with
  | written earlier lexeme later read =>
      obtain ⟨before, shown, behind, split, rfl, stands, -, -⟩ := upTo.exists_stands
      have written : lexeme.symbol? = some op.symbol := by
        have shown := Lexeme.op?_of_tokenAfter read
        cases lexeme <;> cases shown <;> rfl
      obtain rfl := stands.eq_symbol written
      refine ⟨before, _, split, ?_⟩
      obtain ⟨rfl, rfl⟩ | ⟨rfl, rfl⟩ | rfl := reason
      · exact .divisionByZero
      · exact .moduloByZero
      · exact .overflow op
  | understood earlier first later closed starts =>
      obtain ⟨isDivision, -⟩ | ⟨isRemainder, -⟩ | rfl := reason
      · cases isDivision
      · cases isRemainder
      obtain ⟨before, shown, behind, split, rfl, stands, upToFirst, -⟩ := upTo.exists_stands
      obtain ⟨others, mark, rfl⟩ := exists_of_latestAfter_closing rfl closed
      rw [split] at upToFirst
      have behindGroup := upToFirst.lastShown rfl
      cases first with
      | number value => exact ⟨before, _, split, .overflowAtNumber behindGroup stands.maximal.1⟩
      | opening =>
          obtain rfl := stands.eq_symbol rfl
          exact ⟨before, _, split, .overflowAtGroup behindGroup⟩
      | plus | minus | star | slash | percent | closing => cases starts

/-! ## Failures of sources -/

theorem cases_of_evaluate_error {source : String} {failure : Failure}
    (failed : evaluate source = .error failure) :
    failure.IsRefusal ∨ ∃ error, failure = .arithmetic error := by
  obtain ⟨error, -, answered⟩ | ⟨stack, -, ⟨other, refusal, -, answered⟩ |
    ⟨written, value, -, -, -, answered⟩⟩ := valueRun_cases (items source)
  · cases failed.symm.trans answered
    exact .inr ⟨error, rfl⟩
  · cases failed.symm.trans answered
    exact .inl refusal
  · cases failed.symm.trans answered

theorem pointsInto_of_refused {source : String} {failure : Failure}
    (refused : toReversePolish source = .error failure) :
    Failure.PointsInto source.toList failure := by
  obtain ⟨error, rfl⟩ | ⟨error, rfl⟩ := isRefusal_of_runFrom refused
  · exact pointsInto_of_scan refused
  · exact pointsInto_of_grammar refused

/-- **Every failure points at what it is about.**  Whether the value of a source is wanted or
its reverse Polish order, the place in a failure lies in the source or at its end, and what
stands there is what the failure is about. -/
theorem failure_points_at_cause (source : String) (failure : Failure)
    (failed : evaluate source = .error failure ∨ toReversePolish source = .error failure) :
    failure.position ≤ source.utf8ByteSize ∧
      ∃ before behind, source.toList = before ++ behind ∧
        failure.position = Text.byteLength before ∧ failure.PointsAt before behind := by
  have pointsInto : Failure.PointsInto source.toList failure := by
    obtain unvalued | refused := failed
    · obtain refusal | ⟨error, rfl⟩ := cases_of_evaluate_error unvalued
      · exact pointsInto_of_refused (toReversePolish_of_refusal refusal unvalued)
      · exact pointsInto_of_arithmetic unvalued
    · exact pointsInto_of_refused refused
  obtain ⟨before, behind, split, points⟩ := pointsInto
  exact ⟨points.position_le split, before, behind, split, points.position_eq, points⟩

/-- The split of a division by a group, a number that is multiplied with the group, and a
parenthesis that closes nothing. -/
theorem splits_dividedByGroup :
    Splits "1/(0)3)".toList 0 [(.number 1, 0), (.slash, 1), (.opening, 2), (.number 0, 3),
      (.closing, 4), (.number 3, 5), (.closing, 6)] 7 := by
  have last : Splits ['3', ')'] 5 [(.number 3, 5), (.closing, 6)] 7 :=
    .number ['3'] 3 nofun (List.forall_mem_singleton.mpr rfl) (endsRun_cons.mpr rfl) (by decide)
      (.symbol ')' .closing rfl (.ended 7))
  have inner : Splits ['0', ')', '3', ')'] 3
      [(.number 0, 3), (.closing, 4), (.number 3, 5), (.closing, 6)] 7 :=
    .number ['0'] 0 nofun (List.forall_mem_singleton.mpr rfl) (endsRun_cons.mpr rfl) (by decide)
      (.symbol ')' .closing rfl last)
  exact .number ['1'] 1 nofun (List.forall_mem_singleton.mpr rfl) (endsRun_cons.mpr rfl)
    (by decide) (.symbol '/' .slash rfl (.symbol '(' .opening rfl inner))

/-- In `1/(0)3)` the division is applied when the star before the `3` is read, and what fails
then is still the division.  The last parenthesis, which closes nothing, is not the first
closing one. -/
theorem failure_points_at_cause_dividedByGroup :
    evaluate "1/(0)3)" = .error (.arithmetic (.divisionByZero 1)) ∧
      (Failure.arithmetic (.divisionByZero 1)).PointsAt "1".toList "/(0)3)".toList ∧
      toReversePolish "1/(0)3)" = .error (.grammar (.unmatchedClosing 6)) ∧
      (Failure.grammar (.unmatchedClosing 6)).PointsAt "1/(0)3".toList ")".toList := by
  have value : evaluate "1/(0)3)" = .error (.arithmetic (.divisionByZero 1)) := by
    rw [evaluate, items_of_splits splits_dividedByGroup]
    rfl
  have written : toReversePolish "1/(0)3)" = .error (.grammar (.unmatchedClosing 6)) := by
    rw [toReversePolish, items_of_splits splits_dividedByGroup]
    rfl
  obtain ⟨-, before, behind, split, placed, points⟩ := failure_points_at_cause _ _ (.inl value)
  obtain ⟨-, front, back, cut, placedFront, pointsFront⟩ :=
    failure_points_at_cause _ _ (.inr written)
  have wholeValue : "1".toList ++ "/(0)3)".toList = before ++ behind := split
  have wholeWritten : "1/(0)3".toList ++ ")".toList = front ++ back := cut
  obtain ⟨rfl, rfl⟩ := Text.append_inj_of_byteLength wholeValue placed
  obtain ⟨rfl, rfl⟩ := Text.append_inj_of_byteLength wholeWritten placedFront
  exact ⟨value, points, written, pointsFront⟩

end InfixArithmetic
