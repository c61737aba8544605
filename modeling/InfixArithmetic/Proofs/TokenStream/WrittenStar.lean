import InfixArithmetic.Proofs.TokenStream.Pointing
import InfixArithmetic.Proofs.TokenStream.Relocation

/-!
# The star that is understood can be written

Behind a group a number or another group is multiplied with it, and a star is understood
right before it.  That star can be written behind the group instead.  The tokens are the
same, for the token behind the star is of the same kind either way, and so are the value, the
reverse Polish order and all failures: `understood_star_can_be_written`.

Only places differ.  What is behind the written star is later by one byte.  The star itself
was in the place of what follows it, where two tokens stood, and is now right behind the
group.  Of the failures in that place the ones of the arithmetic are about the star and all
others about what follows it.  This is seen from what a failure points at: nothing that can
be said of a token out of place fits both a star and what follows it
(`Failure.PointsAt.not_star_and_factor`).
-/

namespace InfixArithmetic

set_option autoImplicit false

/-! ## What stands at a star and at a factor -/

/-- Whether a character starts what a group can be multiplied with. -/
def StartsFactor (character : Char) : Prop :=
  character = '(' ∨ Literal.isNumeral character = true

theorem Lexeme.Stands.exists_startsFactor {before behind shown : List Char} {lexeme : Lexeme}
    (stands : Stands before behind shown lexeme) (starts : lexeme.startsFactor = true) :
    ∃ first others, shown = first :: others ∧ StartsFactor first := by
  cases lexeme with
  | number value =>
      obtain ⟨maximal, -⟩ := stands.maximal
      obtain ⟨first, others, rfl⟩ := List.exists_cons_of_ne_nil maximal.nonempty
      exact ⟨first, others, rfl, .inr (maximal.numerals first List.mem_cons_self)⟩
  | opening => exact ⟨'(', [], stands.eq_symbol rfl, .inl rfl⟩
  | plus | minus | star | slash | percent | closing => cases starts

theorem StartsFactor.ne {character symbol : Char} (starts : StartsFactor character)
    (other : symbol ≠ '(') (notNumeral : Literal.isNumeral symbol = false) :
    character ≠ symbol := by
  rintro rfl
  obtain rfl | isNumeral := starts
  · exact other rfl
  · rw [notNumeral] at isNumeral
    cases isNumeral

namespace Failure.PointsAt

variable {before rest front others : List Char} {failure : Failure} {first : Char}

/-- Of what stands at a star only one thing can be said without the arithmetic. -/
theorem eq_missingOperand_of_star (points : failure.PointsAt before ('*' :: rest))
    (refusal : failure.IsRefusal) :
    ∃ found place, failure = .grammar (.missingOperand found place) := by
  generalize shown : '*' :: rest = behind at points
  cases points with
  | flaw flaw =>
      subst shown
      obtain ⟨-, notSymbol, -⟩ := flaw.unknown_of_notNumeral rfl
      cases notSymbol
  | missingAtEnd | missingOperand => exact ⟨_, _, rfl⟩
  | missingBeforeNumber maximal isLiteral =>
      obtain ⟨numeral, run, rfl⟩ := List.exists_cons_of_ne_nil maximal.nonempty
      cases shown
      have isNumeral := maximal.numerals '*' List.mem_cons_self
      cases isNumeral
  | emptyExpression | missingBeforeGroup | emptyGroup | unmatchedClosing | unclosedOpening =>
      cases shown
  | divisionByZero | moduloByZero | overflow | overflowAtNumber | overflowAtGroup =>
      exact absurd refusal (not_isRefusal_arithmetic _)

/-- This is not said of what starts a factor. -/
theorem not_missingOperand_of_startsFactor (starts : StartsFactor first) {found : String}
    {place : Nat} :
    ¬ (Failure.grammar (.missingOperand found place)).PointsAt front (first :: others) := by
  intro points
  generalize said : Failure.grammar (.missingOperand found place) = failure at points
  generalize shown : first :: others = behind at points
  cases points with
  | missingOperand character isOne =>
      cases shown
      have isSymbol : first = '*' ∨ first = '/' ∨ first = '%' ∨ first = ')' := by
        simpa using isOne
      obtain isStar | isSlash | isPercent | isClosing := isSymbol
      · exact starts.ne (by decide) rfl isStar
      · exact starts.ne (by decide) rfl isSlash
      · exact starts.ne (by decide) rfl isPercent
      · exact starts.ne (by decide) rfl isClosing
  | missingAtEnd => cases shown
  | flaw | emptyExpression | missingBeforeNumber | missingBeforeGroup | emptyGroup
  | unmatchedClosing | unclosedOpening | divisionByZero | moduloByZero | overflow
  | overflowAtNumber | overflowAtGroup => cases said

/-- **Nothing but a failure of the arithmetic fits both a star and what starts a factor.** -/
theorem not_star_and_factor {move : Nat → Nat} (starts : StartsFactor first)
    (atStar : failure.PointsAt before ('*' :: rest))
    (atFactor : (failure.relocate move).PointsAt front (first :: others)) :
    ¬ failure.IsRefusal := by
  intro refusal
  obtain ⟨found, place, rfl⟩ := atStar.eq_missingOperand_of_star refusal
  exact not_missingOperand_of_startsFactor starts atFactor

/-- Behind a star, no operator without a result stands at what starts a factor. -/
theorem not_arithmetic_of_startsFactor (starts : StartsFactor first)
    (behindStar : LastShown '*' front) {error : ArithmeticError} :
    ¬ (Failure.arithmetic error).PointsAt front (first :: others) := by
  intro points
  generalize said : Failure.arithmetic error = failure at points
  generalize shown : first :: others = behind at points
  cases points with
  | divisionByZero =>
      cases shown
      exact starts.ne (by decide) rfl rfl
  | moduloByZero =>
      cases shown
      exact starts.ne (by decide) rfl rfl
  | overflow op =>
      cases shown
      cases op <;> exact starts.ne (by decide) rfl rfl
  | overflowAtNumber closed | overflowAtGroup closed =>
      cases closed.unique behindStar rfl rfl
  | flaw | emptyExpression | missingAtEnd | missingOperand | missingBeforeNumber
  | missingBeforeGroup | emptyGroup | unmatchedClosing | unclosedOpening => cases said

end Failure.PointsAt

theorem Failure.PointsInto.pointsAt {before behind : List Char} {failure : Failure}
    (pointsInto : failure.PointsInto (before ++ behind))
    (placed : failure.position = Text.byteLength before) : failure.PointsAt before behind := by
  obtain ⟨front, back, split, points⟩ := pointsInto
  obtain ⟨rfl, rfl⟩ := Text.append_inj_of_byteLength split
    (placed.symm.trans points.position_eq)
  exact points

/-! ## Places with and without the star -/

/-- Where a place behind the written star was before: the star was in the place of what
follows it. -/
def withoutStar (place first position : Nat) : Nat :=
  if position < place then position else if position = place then first else position - 1

/-- Where the star goes that is understood at a place, if it is written. -/
def withStar (place first position : Nat) : Nat :=
  if position = first then place else shiftFrom place 1 position

section Places

variable {place first position : Nat}

theorem withoutStar_shiftFrom (position : Nat) :
    withoutStar place first (shiftFrom place 1 position) = position := by
  by_cases before : position < place
  · rw [shiftFrom_of_lt 1 before, withoutStar, if_pos before]
  · rw [shiftFrom_of_le 1 (by omega), withoutStar, if_neg (by omega), if_neg (by omega)]
    omega

/-- Every place but that of the star is one byte later. -/
theorem shiftFrom_withoutStar (first : Nat) (notStar : position ≠ place) :
    shiftFrom place 1 (withoutStar place first position) = position := by
  rw [withoutStar, if_neg notStar]
  by_cases before : position < place
  · rw [if_pos before, shiftFrom_of_lt 1 before]
  · rw [if_neg before, shiftFrom_of_le 1 (by omega)]
    omega

/-- Every place but that of what follows the star is found again. -/
theorem withStar_withoutStar (le_first : place ≤ first) (notFirst : position ≠ first + 1) :
    withStar place first (withoutStar place first position) = position := by
  by_cases isStar : position = place
  · subst isStar
    rw [withoutStar, if_neg (Nat.lt_irrefl _), if_pos rfl, withStar, if_pos rfl]
  · rw [withStar, if_neg, shiftFrom_withoutStar first isStar]
    rw [withoutStar, if_neg isStar]
    split <;> omega

end Places

/-- The failure with the star written: an operator without a result that was found in the
place of what follows the star is the star. -/
def Failure.writeStar (place first : Nat) : Failure → Failure
  | .scan error => .scan (error.relocate (shiftFrom place 1))
  | .grammar error => .grammar (error.relocate (shiftFrom place 1))
  | .arithmetic error => .arithmetic (error.relocate (withStar place first))
  | .misuse token arity position => .misuse token arity (shiftFrom place 1 position)

/-! ## A group and what is multiplied with it -/

theorem Lexeme.Stands.scan_eq {before behind shown : List Char} {lexeme : Lexeme}
    (stands : Lexeme.Stands before behind shown lexeme) (position : Nat) :
    Scan.ofChars (shown ++ behind) position
      = .read lexeme position (Scan.ofChars behind (position + Text.byteLength shown)) := by
  cases stands with
  | symbol character isSymbol => exact Scan.ofChars_symbol isSymbol behind position
  | number maximal isLiteral =>
      exact Scan.ofChars_number maximal.nonempty maximal.numerals maximal.ends isLiteral position

/-- A star and the token of what follows it, in their places. -/
def factor (lexeme : Lexeme) (star first : Nat) : List (Token × Nat) :=
  [(.binary .mul, star), (lexeme.tokenAfter (some (.binary .mul)), first)]

/-- The items of a text behind a factor that starts with a lexeme. -/
def itemsBehindFactor (lexeme : Lexeme) (rest : List Char) (position : Nat) : List Item :=
  itemsAfter (some (lexeme.tokenAfter (some (.binary .mul)))) (Scan.ofChars rest position)

/-- A source whose last token is a closing parenthesis, and a text that begins with an opening
parenthesis or a number, blanks aside. -/
structure Juxtaposed (before behind : String) (tokens : List (Token × Nat))
    (blanks shown rest : List Char) (lexeme : Lexeme) : Prop where
  read : ∃ final, readTokens before = .ok (tokens ++ [(.endOfInput, final)])
  closed : lastToken tokens = some .closing
  split : behind.toList = blanks ++ (shown ++ rest)
  areBlank : ∀ blank ∈ blanks, Text.isBlank blank = true
  stands : Lexeme.Stands blanks rest shown lexeme
  starts : lexeme.startsFactor = true

namespace Juxtaposed

variable {before behind : String} {tokens : List (Token × Nat)} {blanks shown rest : List Char}
  {lexeme : Lexeme}

theorem exists_splits (juxtaposed : Juxtaposed before behind tokens blanks shown rest lexeme) :
    ∃ lexemes, Splits before.toList 0 lexemes before.utf8ByteSize ∧
      tokensAfter none lexemes = tokens ∧ latestAfter none lexemes = some .closing := by
  obtain ⟨final, read⟩ := juxtaposed.read
  obtain ⟨lexemes, splits, rfl⟩ := exists_splits_of_readTokens read
  have final_eq := splits.final_eq
  rw [Nat.zero_add, Text.byteLength_toList] at final_eq
  subst final_eq
  exact ⟨lexemes, splits, rfl, (lastToken_tokensAfter_none lexemes).symm.trans juxtaposed.closed⟩

theorem lastShown (juxtaposed : Juxtaposed before behind tokens blanks shown rest lexeme) :
    LastShown ')' before.toList := by
  obtain ⟨lexemes, splits, -, closed⟩ := juxtaposed.exists_splits
  obtain ⟨front, closing, rfl⟩ := exists_of_latestAfter_closing rfl closed
  have upTo : SplitsUpTo [] before.utf8ByteSize (before.toList ++ []) 0
      (front ++ [(.closing, closing)]) := by
    rw [List.append_nil]
    exact splits.upTo
  exact upTo.lastShown rfl

theorem scan_eq (juxtaposed : Juxtaposed before behind tokens blanks shown rest lexeme)
    (position : Nat) :
    Scan.ofChars behind.toList position
      = .read lexeme (position + Text.byteLength blanks)
          (Scan.ofChars rest (position + Text.byteLength blanks + Text.byteLength shown)) := by
  rw [juxtaposed.split, Scan.ofChars_blanks juxtaposed.areBlank, juxtaposed.stands.scan_eq]

/-- **The items with the star understood**: it is in the place of what follows it. -/
theorem items_eq (juxtaposed : Juxtaposed before behind tokens blanks shown rest lexeme) :
    items (before ++ behind)
      = streamOf (tokens ++ factor lexeme (before.utf8ByteSize + Text.byteLength blanks)
          (before.utf8ByteSize + Text.byteLength blanks))
        ++ itemsBehindFactor lexeme rest
          (before.utf8ByteSize + Text.byteLength blanks + Text.byteLength shown) := by
  obtain ⟨lexemes, splits, rfl, closed⟩ := juxtaposed.exists_splits
  rw [splits.items_append (.inl (juxtaposed.lastShown.startsRun rfl)), closed,
    juxtaposed.scan_eq, itemsAfter_read,
    tokensAfter_of_implied (impliesStar_of_startsFactor juxtaposed.starts _),
    tokenAfter_of_startsFactor juxtaposed.starts _ (some (.binary .mul)), streamOf_append,
    List.append_assoc]
  rfl

/-- **The items with the star written**: it is right behind the group, and what follows it is
one byte later. -/
theorem items_written_eq (juxtaposed : Juxtaposed before behind tokens blanks shown rest lexeme) :
    items (before ++ "*" ++ behind)
      = streamOf (tokens ++ factor lexeme before.utf8ByteSize
          (before.utf8ByteSize + Text.byteLength blanks + 1))
        ++ (itemsBehindFactor lexeme rest
          (before.utf8ByteSize + Text.byteLength blanks + Text.byteLength shown)).map
            (relocateItem (shiftFrom before.utf8ByteSize 1)) := by
  obtain ⟨lexemes, splits, rfl, closed⟩ := juxtaposed.exists_splits
  have shownFirst : ("*" ++ behind).toList = '*' :: behind.toList := String.toList_append
  have star : Scan.ofChars ('*' :: behind.toList) before.utf8ByteSize
      = .read .star before.utf8ByteSize (Scan.ofChars behind.toList (before.utf8ByteSize + 1)) :=
    Scan.ofChars_symbol rfl _ _
  have notStarted : ¬ TokenStream.impliesStar (some .closing)
      (Lexeme.star.tokenAfter (some .closing)) = true := nofun
  have later : Scan.ofChars rest
      (before.utf8ByteSize + Text.byteLength blanks + Text.byteLength shown + 1)
        = (Scan.ofChars rest (before.utf8ByteSize + Text.byteLength blanks
            + Text.byteLength shown)).relocate (shiftFrom before.utf8ByteSize 1) :=
    Scan.ofChars_relocate fun place behind => shiftFrom_of_le 1 (by omega)
  have moved : before.utf8ByteSize + 1 + Text.byteLength blanks
      = before.utf8ByteSize + Text.byteLength blanks + 1 := Nat.add_right_comm ..
  rw [String.append_assoc, splits.items_append (.inl (juxtaposed.lastShown.startsRun rfl)),
    shownFirst, closed, star, itemsAfter_read, tokensAfter_of_written notStarted,
    juxtaposed.scan_eq, itemsAfter_read, tokensAfter_of_written (not_impliesStar_of_awaits rfl _),
    moved, Nat.add_right_comm _ 1, later, itemsAfter_relocate, streamOf_append, List.append_assoc]
  rfl

/-- Without the star, the items are in the places from where they were moved. -/
theorem items_withoutStar (juxtaposed : Juxtaposed before behind tokens blanks shown rest lexeme) :
    items (before ++ behind)
      = (items (before ++ "*" ++ behind)).map (relocateItem (withoutStar before.utf8ByteSize
          (before.utf8ByteSize + Text.byteLength blanks))) := by
  rw [juxtaposed.items_eq, juxtaposed.items_written_eq, List.map_append,
    map_relocateItem_of_inverse withoutStar_shiftFrom, streamOf_append, streamOf_append,
    List.map_append]
  obtain ⟨lexemes, splits, rfl, -⟩ := juxtaposed.exists_splits
  have fixed : ∀ placed ∈ lexemes, withoutStar before.utf8ByteSize
      (before.utf8ByteSize + Text.byteLength blanks) placed.2 = placed.2 :=
    fun placed member => if_pos (splits.upTo.lt_place placed member)
  have star : withoutStar before.utf8ByteSize (before.utf8ByteSize + Text.byteLength blanks)
      before.utf8ByteSize = before.utf8ByteSize + Text.byteLength blanks := by
    rw [withoutStar, if_neg (Nat.lt_irrefl _), if_pos rfl]
  have first : withoutStar before.utf8ByteSize (before.utf8ByteSize + Text.byteLength blanks)
      (before.utf8ByteSize + Text.byteLength blanks + 1)
        = before.utf8ByteSize + Text.byteLength blanks := by
    rw [withoutStar, if_neg (by omega), if_neg (by omega), Nat.add_sub_cancel]
  rw [streamOf_tokensAfter_of_fixed _ fixed]
  simp [factor, streamOf, relocateItem, relocatePlaced, star, first]

/-! ## Failures with and without the star -/

theorem exists_first (juxtaposed : Juxtaposed before behind tokens blanks shown rest lexeme) :
    ∃ first others, behind.toList = blanks ++ first :: others ∧ StartsFactor first := by
  obtain ⟨first, others, rfl, starts⟩ := juxtaposed.stands.exists_startsFactor juxtaposed.starts
  exact ⟨first, others ++ rest, juxtaposed.split, starts⟩

/-- No refusal is about the star. -/
theorem position_ne_of_refused
    (juxtaposed : Juxtaposed before behind tokens blanks shown rest lexeme) {failure : Failure}
    (refused : toReversePolish (before ++ "*" ++ behind) = .error failure) :
    failure.position ≠ before.utf8ByteSize := by
  intro atStar
  obtain ⟨first, others, split, starts⟩ := juxtaposed.exists_first
  have moved := toReversePolish_relocate juxtaposed.items_withoutStar
  rw [refused] at moved
  have points := pointsInto_of_refused refused
  have pointsMoved := pointsInto_of_refused moved
  rw [String.toList_append, String.toList_append, List.append_assoc] at points
  rw [String.toList_append, split, ← List.append_assoc] at pointsMoved
  have pointsAtStar := points.pointsAt (atStar.trans (Text.byteLength_toList before).symm)
  have pointsAtFactor := pointsMoved.pointsAt (by
    rw [Failure.position_relocate, atStar, withoutStar, if_neg (Nat.lt_irrefl _), if_pos rfl,
      Text.byteLength_append, Text.byteLength_toList])
  exact Failure.PointsAt.not_star_and_factor starts pointsAtStar pointsAtFactor
    (isRefusal_of_runFrom refused)

/-- No operator without a result stands behind the written star. -/
theorem position_ne_of_arithmetic
    (juxtaposed : Juxtaposed before behind tokens blanks shown rest lexeme)
    {error : ArithmeticError}
    (failed : evaluate (before ++ "*" ++ behind) = .error (.arithmetic error)) :
    error.position ≠ before.utf8ByteSize + Text.byteLength blanks + 1 := by
  intro atFactor
  obtain ⟨first, others, split, starts⟩ := juxtaposed.exists_first
  have points := pointsInto_of_arithmetic failed
  rw [String.toList_append, String.toList_append, split, ← List.append_assoc] at points
  have pointsAtFactor := points.pointsAt (by
    rw [Text.byteLength_append, Text.byteLength_append, Text.byteLength_toList,
      Nat.add_right_comm]
    exact atFactor)
  refine Failure.PointsAt.not_arithmetic_of_startsFactor starts ?_ pointsAtFactor
  exact ⟨before.toList, blanks, List.append_assoc .., juxtaposed.areBlank⟩

/-- So a refusal with the star written is the one without it, one byte later from there on. -/
theorem relocate_refused (juxtaposed : Juxtaposed before behind tokens blanks shown rest lexeme)
    {failure : Failure}
    (refused : toReversePolish (before ++ "*" ++ behind) = .error failure) :
    (failure.relocate (withoutStar before.utf8ByteSize
        (before.utf8ByteSize + Text.byteLength blanks))).relocate
      (shiftFrom before.utf8ByteSize 1) = failure :=
  Failure.relocate_relocate_of_inverse
    (shiftFrom_withoutStar _ (juxtaposed.position_ne_of_refused refused))

theorem toReversePolish_written_eq
    (juxtaposed : Juxtaposed before behind tokens blanks shown rest lexeme) :
    toReversePolish (before ++ "*" ++ behind)
      = (toReversePolish (before ++ behind)).mapError
          (Failure.relocate (shiftFrom before.utf8ByteSize 1)) := by
  rw [toReversePolish_relocate juxtaposed.items_withoutStar]
  cases answered : toReversePolish (before ++ "*" ++ behind) with
  | ok written => rfl
  | error failure => exact congrArg Except.error (juxtaposed.relocate_refused answered).symm

theorem evaluate_written_eq
    (juxtaposed : Juxtaposed before behind tokens blanks shown rest lexeme) :
    evaluate (before ++ "*" ++ behind)
      = (evaluate (before ++ behind)).mapError (Failure.writeStar before.utf8ByteSize
          (before.utf8ByteSize + Text.byteLength blanks)) := by
  rw [evaluate_relocate juxtaposed.items_withoutStar]
  cases answered : evaluate (before ++ "*" ++ behind) with
  | ok value => rfl
  | error failure =>
      refine congrArg Except.error ?_
      obtain refusal | ⟨error, rfl⟩ := cases_of_evaluate_error answered
      · have same :=
          (juxtaposed.relocate_refused (toReversePolish_of_refusal refusal answered)).symm
        obtain ⟨error, rfl⟩ | ⟨error, rfl⟩ := refusal <;> exact same
      · have inverse := withStar_withoutStar (Nat.le_add_right _ _)
          (juxtaposed.position_ne_of_arithmetic answered)
        have moved : ((Failure.arithmetic error).relocate (withoutStar before.utf8ByteSize
            (before.utf8ByteSize + Text.byteLength blanks))).relocate (withStar before.utf8ByteSize
            (before.utf8ByteSize + Text.byteLength blanks)) = .arithmetic error :=
          Failure.relocate_relocate_of_inverse inverse
        exact moved.symm

end Juxtaposed

/-- **The star that is understood behind a group can be written there.**  The tokens are the
same, or the error in reading them, and so are the reverse Polish order and the value, or the
failure that there is instead.  The star is right behind the group then, and everything that
follows is later by one byte.  An operator without a result in the place of what follows is
the star. -/
theorem understood_star_can_be_written {before behind : String} {tokens : List (Token × Nat)}
    {blanks shown rest : List Char} {lexeme : Lexeme}
    (juxtaposed : Juxtaposed before behind tokens blanks shown rest lexeme) :
    (∃ later : Except ScanError (List (Token × Nat)),
      readTokens (before ++ behind)
          = later.map (tokens ++ factor lexeme (before.utf8ByteSize + Text.byteLength blanks)
              (before.utf8ByteSize + Text.byteLength blanks) ++ ·) ∧
        readTokens (before ++ "*" ++ behind)
          = ((later.map (List.map (relocatePlaced (shiftFrom before.utf8ByteSize 1)))).mapError
              (ScanError.relocate (shiftFrom before.utf8ByteSize 1))).map
              (tokens ++ factor lexeme before.utf8ByteSize
                (before.utf8ByteSize + Text.byteLength blanks + 1) ++ ·)) ∧
      toReversePolish (before ++ "*" ++ behind)
        = (toReversePolish (before ++ behind)).mapError
            (Failure.relocate (shiftFrom before.utf8ByteSize 1)) ∧
      evaluate (before ++ "*" ++ behind)
        = (evaluate (before ++ behind)).mapError (Failure.writeStar before.utf8ByteSize
            (before.utf8ByteSize + Text.byteLength blanks)) := by
  refine ⟨⟨collect (itemsBehindFactor lexeme rest
    (before.utf8ByteSize + Text.byteLength blanks + Text.byteLength shown)), ?_, ?_⟩,
    juxtaposed.toReversePolish_written_eq, juxtaposed.evaluate_written_eq⟩
  · rw [readTokens, juxtaposed.items_eq, collect_streamOf_append]
  · rw [readTokens, juxtaposed.items_written_eq, collect_streamOf_append, collect_relocate]

/-- The split of a group, and behind a blank a group that is never closed. -/
theorem splits_groupBeforeGroup :
    Splits "(1) (2".toList 0
      [(.opening, 0), (.number 1, 1), (.closing, 2), (.opening, 4), (.number 2, 5)] 6 := by
  have last : Splits ['2'] 5 [(.number 2, 5)] 6 :=
    .number ['2'] 2 nofun (List.forall_mem_singleton.mpr rfl) nofun (by decide) (.ended 6)
  have inner : Splits ['1', ')', ' ', '(', '2'] 1
      [(.number 1, 1), (.closing, 2), (.opening, 4), (.number 2, 5)] 6 :=
    .number ['1'] 1 nofun (List.forall_mem_singleton.mpr rfl) (endsRun_cons.mpr rfl) (by decide)
      (.symbol ')' .closing rfl (.blank ' ' rfl (.symbol '(' .opening rfl last)))
  exact .symbol '(' .opening rfl inner

/-- In `(1) (2` the star is understood at the second parenthesis, and so is what is said of
that parenthesis.  With the star written it is said of the parenthesis and not of the star. -/
theorem understood_star_can_be_written_groupBeforeGroup :
    Juxtaposed "(1)" " (2" [(.opening, 0), (.number 1, 1), (.closing, 2)] [' '] ['('] ['2']
        .opening ∧
      evaluate ("(1)" ++ " (2") = .error (.grammar (.unclosedOpening 4)) ∧
      evaluate ("(1)" ++ "*" ++ " (2") = .error (.grammar (.unclosedOpening 5)) := by
  have group : Splits "(1)".toList 0 [(.opening, 0), (.number 1, 1), (.closing, 2)] 3 := by
    have inner : Splits ['1', ')'] 1 [(.number 1, 1), (.closing, 2)] 3 :=
      .number ['1'] 1 nofun (List.forall_mem_singleton.mpr rfl) (endsRun_cons.mpr rfl) (by decide)
        (.symbol ')' .closing rfl (.ended 3))
    exact .symbol '(' .opening rfl inner
  have juxtaposed : Juxtaposed "(1)" " (2" [(.opening, 0), (.number 1, 1), (.closing, 2)] [' ']
      ['('] ['2'] .opening :=
    { read := ⟨3, readTokens_of_splits group⟩
      closed := rfl
      split := rfl
      areBlank := List.forall_mem_singleton.mpr rfl
      stands := .symbol '(' rfl
      starts := rfl }
  have value : evaluate ("(1)" ++ " (2") = .error (.grammar (.unclosedOpening 4)) := by
    show (valueRun (items "(1) (2")).answer = _
    rw [items_of_splits splits_groupBeforeGroup]
    rfl
  obtain ⟨-, -, written⟩ := understood_star_can_be_written juxtaposed
  rw [value] at written
  exact ⟨juxtaposed, value, written⟩

end InfixArithmetic
