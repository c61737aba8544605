import InfixArithmetic.Proofs.Expression.Subexpression
import InfixArithmetic.Proofs.Lexeme.Range
import InfixArithmetic.Proofs.TokenStream.Lossless

/-!
# Redundant parentheses

Parentheses around a part of an expression change nothing but places:
`redundant_parentheses_change_nothing`.  In the derivation the part becomes a unit, which can
stand wherever the part can (`Surrounds.reads_enclosed`).  Only where two factors stand side by
side does the grammar look at the lexemes between them.  There a part at the end of the left
factor ends in a closing parenthesis with the parentheses as it does without them, and a part at
the start of the right factor begins with what starts a factor.

So no star comes to be understood and none is lost, and no plus or minus changes between sign and
operator.
-/

namespace InfixArithmetic

set_option autoImplicit false

open Expression (Context)

/-! ## A part between parentheses -/

section Enclosed

variable (move inside : Nat → Nat) (opening closing : Nat)

/-- The lexemes of a part between two parentheses, with the others around them.  The part is
moved in one way, and what is around it in another. -/
def enclosed (front part back : List (Lexeme × Nat)) : List (Lexeme × Nat) :=
  front.map (relocatePlaced move) ++ (.opening, opening) ::
    (part.map (relocatePlaced inside) ++ (.closing, closing) :: back.map (relocatePlaced move))

variable {move inside opening closing} {part front back others : List (Lexeme × Nat)}

theorem enclosed_append_front :
    enclosed move inside opening closing (others ++ front) part back
      = others.map (relocatePlaced move)
        ++ enclosed move inside opening closing front part back := by
  rw [enclosed, enclosed, List.map_append, List.append_assoc]

theorem enclosed_cons_front (placed : Lexeme × Nat) :
    enclosed move inside opening closing (placed :: front) part back
      = relocatePlaced move placed :: enclosed move inside opening closing front part back :=
  rfl

theorem enclosed_append_back :
    enclosed move inside opening closing front part (back ++ others)
      = enclosed move inside opening closing front part back
        ++ others.map (relocatePlaced move) := by
  simp only [enclosed, List.map_append, List.append_assoc, List.cons_append]

/-- If the last lexeme closes a group, then the last one there is with the two parentheses
closes a group, too. -/
theorem exists_enclosed_eq_concat {last : Nat}
    (closed : front ++ (part ++ back) = others ++ [(.closing, last)]) :
    ∃ before place, enclosed move inside opening closing front part back
      = before ++ [(.closing, place)] := by
  rcases List.eq_nil_or_concat back with rfl | ⟨back, placed, rfl⟩
  · refine ⟨front.map (relocatePlaced move)
      ++ (.opening, opening) :: part.map (relocatePlaced inside), closing, ?_⟩
    rw [List.append_assoc]
    rfl
  · have ends := congrArg List.getLast? closed
    simp only [List.concat_eq_append, ← List.append_assoc, List.getLast?_concat,
      Option.some.injEq] at ends
    subst ends
    refine ⟨enclosed move inside opening closing front part back, move last, ?_⟩
    rw [List.concat_eq_append, enclosed_append_back]
    rfl

/-- If the first lexeme starts a factor, then so does the first one there is with the two
parentheses, and it stands where the other is moved. -/
theorem Surrounds.exists_enclosed_eq_cons {sub : Expression} {rank : Rank} {context : Context}
    (surrounds : Surrounds part sub rank front back context)
    (opens : ∀ placed ∈ part.head?, move placed.2 = opening) {first : Lexeme} {position : Nat}
    (starts : first.startsFactor = true)
    (begins : front ++ (part ++ back) = (first, position) :: others) :
    ∃ lexeme behind, lexeme.startsFactor = true ∧
      enclosed move inside opening closing front part back
        = (lexeme, move position) :: behind := by
  obtain ⟨later, rfl⟩ | ⟨rfl, later, rfl⟩ := surrounds.first_cases begins
  · exact ⟨first, _, starts, rfl⟩
  · obtain rfl := opens _ rfl
    exact ⟨.opening, _, rfl, rfl⟩

/-- **A part between parentheses is a unit**, which can stand wherever the part can. -/
theorem Surrounds.reads_enclosed {sub : Expression} {rank : Rank} {context : Context}
    (surrounds : Surrounds part sub rank front back context)
    (opens : ∀ first ∈ part.head?, move first.2 = opening) :
    Reads rank (enclosed move inside opening closing front part back)
      ((context.relocate move).plug (.group opening (sub.relocate inside) closing)) := by
  induction surrounds with
  | here read => exact .ofUnitTo (.group opening closing (read.relocate inside).toSum) _
  | signed lexeme polarity position shown inner ih =>
      exact .signed lexeme polarity (move position) shown ih
  | group left right inner ih =>
      rw [enclosed_append_back]
      exact .group (move left) (move right) ih
  | ofUnit inner ih => exact .ofUnit ih
  | multiplyLeft lexeme op position shown ranked inner readRight ih =>
      rw [enclosed_append_back]
      exact .multiply lexeme op (move position) shown ranked ih (readRight.relocate move)
  | multiplyRight lexeme op position shown ranked readLeft inner ih =>
      rw [enclosed_append_front]
      exact .multiply lexeme op (move position) shown ranked (readLeft.relocate move) ih
  | juxtaposeLeft last first position starts closed inner readRight ih =>
      obtain ⟨before, place, same⟩ : ∃ before place, enclosed move inside opening closing _ part _
          = before ++ [(.closing, place)] :=
        exists_enclosed_eq_concat closed
      rw [same] at ih
      rw [enclosed_append_back, same, List.append_assoc]
      exact .juxtapose place first (move position) starts ih (readRight.relocate move)
  | juxtaposeRight last first position starts readLeft begins inner ih =>
      obtain ⟨lexeme, behind, startsThere, same⟩ : ∃ lexeme behind, lexeme.startsFactor = true ∧
          enclosed move inside opening closing _ part _ = (lexeme, move position) :: behind :=
        inner.exists_enclosed_eq_cons opens starts begins
      rw [same] at ih
      have left := readLeft.relocate move
      rw [List.map_append] at left
      rw [enclosed_append_front, enclosed_cons_front, same]
      exact .juxtapose (move last) lexeme (move position) startsThere left ih
  | ofProduct inner ih => exact .ofProduct ih
  | addLeft lexeme op position shown ranked inner readRight ih =>
      rw [enclosed_append_back]
      exact .add lexeme op (move position) shown ranked ih (readRight.relocate move)
  | addRight lexeme op position shown ranked readLeft inner ih =>
      rw [enclosed_append_front]
      exact .add lexeme op (move position) shown ranked (readLeft.relocate move) ih

end Enclosed

/-! ## Places with two parentheses -/

/-- Where an operator goes if parentheses are put around what stands from `opening` to
`closing`.  An operator at `opening` is the star that is understood there, and the parenthesis
is put in behind it. -/
def enclosedPlace (opening closing position : Nat) : Nat :=
  if position ≤ opening then position
  else if position < closing then position + 1
  else position + 2

section Places

variable {opening closing position : Nat}

theorem enclosedPlace_of_le (before : position ≤ opening) :
    enclosedPlace opening closing position = position :=
  if_pos before

theorem enclosedPlace_of_between (behind : opening < position) (before : position < closing) :
    enclosedPlace opening closing position = position + 1 := by
  rw [enclosedPlace, if_neg (Nat.not_le.mpr behind), if_pos before]

theorem enclosedPlace_of_ge (order : opening < closing) (behind : closing ≤ position) :
    enclosedPlace opening closing position = position + 2 := by
  rw [enclosedPlace, if_neg (by omega), if_neg (Nat.not_lt.mpr behind)]

end Places

/-! ## Sources of expressions -/

section Sources

variable {source : String} {lexemes : List (Lexeme × Nat)} {final : Nat} {expression : Expression}

theorem readTokens_of_reads (splits : Splits source.toList 0 lexemes final)
    (read : Reads .sum lexemes expression) :
    readTokens source = .ok (expression.tokens ++ [(.endOfInput, final)]) := by
  have derived : Derives .sum (tokensAfter none lexemes) expression :=
    (reads_iff_derives rfl).mp read
  rw [readTokens_of_splits splits, derived.tokens_eq]

theorem evaluate_of_reads (splits : Splits source.toList 0 lexemes final)
    (read : Reads .sum lexemes expression) :
    evaluate source = expression.value.mapError Failure.arithmetic := by
  rw [evaluate, items_of_splits splits, endedStream_eq]
  exact valueRun_of_derives ((reads_iff_derives rfl).mp read) (ends_endOfInput final)

end Sources

/-! ## Redundant parentheses -/

/-- A source is cut before and behind the text of a part of its expression, which stands from
`opening` to `closing`. -/
def ShowsPart (before part behind : String) (context : Context) (sub : Expression)
    (opening closing : Nat) : Prop :=
  ∃ front inside back final,
    LexemeRange before.toList part.toList behind.toList front inside back opening closing final ∧
      Surrounds inside sub .sum front back context

/-- **Every part of an expression has a text of its own in the source.** -/
theorem exists_showsPart {source : String} {lexemes : List (Lexeme × Nat)} {final : Nat}
    {context : Context} {sub : Expression} (splits : Splits source.toList 0 lexemes final)
    (read : Reads .sum lexemes (context.plug sub)) :
    ∃ before part behind opening closing, source = before ++ part ++ behind ∧
      ShowsPart before part behind context sub opening closing := by
  obtain ⟨front, inside, back, rfl, surrounds⟩ := Surrounds.exists_of_reads read rfl
  obtain ⟨before, part, behind, opening, closing, cut, range⟩ :=
    splits.exists_range surrounds.part_ne_nil
  refine ⟨String.ofList before, String.ofList part, String.ofList behind, opening, closing, ?_,
    front, inside, back, final, ?_, surrounds⟩
  · rw [← String.toList_inj, cut]
    simp
  · simpa using range

/-- A source with two parentheses put in. -/
def parenthesized (before part behind : String) : String :=
  before ++ "(" ++ part ++ ")" ++ behind

/-- The tree with the part between parentheses, which stand at the two ends of its text. -/
def parenthesizedTree (context : Context) (sub : Expression) (opening closing : Nat) :
    Expression :=
  (context.relocate (shiftFrom closing 2)).plug
    (.group opening (sub.relocate (· + 1)) (closing + 1))

namespace ShowsPart

variable {before part behind : String} {context : Context} {sub : Expression}
  {opening closing : Nat}

theorem opening_lt_closing (shows : ShowsPart before part behind context sub opening closing) :
    opening < closing := by
  obtain ⟨front, inside, back, final, range, -⟩ := shows
  exact range.opening_lt_closing

theorem before_le (shows : ShowsPart before part behind context sub opening closing) :
    ∀ placed ∈ context.before, placed.2 ≤ opening := by
  obtain ⟨front, inside, back, final, range, surrounds⟩ := shows
  have inFront : ∀ placed ∈ front, placed.2 ≤ opening :=
    fun placed member => (range.lt_opening placed member).le
  have atFirst : ∀ placed ∈ inside.head?, placed.2 ≤ opening :=
    fun placed isFirst => (range.place_of_head? placed isFirst).le
  exact surrounds.forall_before (P := (· ≤ opening)) inFront atFirst

theorem le_behind (shows : ShowsPart before part behind context sub opening closing) :
    ∀ placed ∈ context.behind, closing ≤ placed.2 := by
  obtain ⟨front, inside, back, final, range, surrounds⟩ := shows
  exact surrounds.forall_behind (P := (closing ≤ ·)) range.closing_le

theorem between (shows : ShowsPart before part behind context sub opening closing) :
    ∀ op position, (.binary op, position) ∈ sub.tokens →
      opening < position ∧ position < closing := by
  obtain ⟨front, inside, back, final, range, surrounds⟩ := shows
  obtain ⟨rank, read⟩ := surrounds.exists_reads
  exact read.forall_binary (P := fun position => opening < position ∧ position < closing)
    range.between

theorem exists_reads (shows : ShowsPart before part behind context sub opening closing) :
    ∃ lexemes final, Splits (before ++ part ++ behind).toList 0 lexemes final ∧
      Reads .sum lexemes (context.plug sub) ∧
        ∃ others, Splits (parenthesized before part behind).toList 0 others (final + 2) ∧
          Reads .sum others (parenthesizedTree context sub opening closing) := by
  have order := shows.opening_lt_closing
  obtain ⟨front, inside, back, final, range, surrounds⟩ := shows
  refine ⟨_, final, ?_, surrounds.reads, _, ?_, surrounds.reads_enclosed ?_⟩
  · rw [String.toList_append, String.toList_append, List.append_assoc]
    exact range.splits
  · have early : ∀ placed ∈ front, placed.2 < closing :=
      fun placed member => (range.lt_opening placed member).trans order
    rw [enclosed, map_shiftFrom_of_lt 2 early, map_shiftFrom_of_le 2 range.closing_le]
    have splits := range.splits_enclosed
    simpa [parenthesized] using splits
  · intro placed isFirst
    rw [range.place_of_head? placed isFirst]
    exact shiftFrom_of_lt 2 order

theorem value_eq (shows : ShowsPart before part behind context sub opening closing) :
    (parenthesizedTree context sub opening closing).value
      = (context.plug sub).value.mapError
          (ArithmeticError.relocate (enclosedPlace opening closing)) := by
  have order := shows.opening_lt_closing
  refine Context.value_plug_relocate _ ?_ ?_ (Expression.value_relocate ?_)
  · intro op position member
    have before := shows.before_le _ member
    rw [shiftFrom_of_lt 2 (lt_of_le_of_lt before order), enclosedPlace_of_le before]
  · intro op position member
    have behind := shows.le_behind _ member
    rw [shiftFrom_of_le 2 behind, enclosedPlace_of_ge order behind]
  · intro op position member
    obtain ⟨behind, before⟩ := shows.between op position member
    exact (enclosedPlace_of_between behind before).symm

/-- The parentheses come in among the tokens, and change none of them. -/
theorem tokens_eq (shows : ShowsPart before part behind context sub opening closing) :
    (parenthesizedTree context sub opening closing).tokens
      = context.before ++ (.opening, opening) :: (sub.tokens.map (relocatePlaced (· + 1))
          ++ (.closing, closing + 1) :: context.behind.map (relocatePlaced (· + 2))) := by
  have early : ∀ placed ∈ context.before, placed.2 < closing :=
    fun placed member => lt_of_le_of_lt (shows.before_le placed member) shows.opening_lt_closing
  rw [parenthesizedTree, Context.tokens_plug, Context.before_relocate, Context.behind_relocate,
    map_shiftFrom_of_lt 2 early, map_shiftFrom_of_le 2 shows.le_behind, Expression.tokens,
    Expression.tokens_relocate]
  simp only [List.cons_append, List.append_assoc, List.nil_append]

end ShowsPart

/-- **Redundant parentheses change nothing.**  Every part of the expression that a source
reads as has a text of its own there.  With parentheses around it, the source has the same
reverse Polish order, and the same value or the same arithmetical error at the same operator,
which is moved by the parentheses before it.  The tokens are the same too, but for the two
parentheses.  A star that is understood right before the text keeps its place, and the opening
parenthesis stands behind it. -/
theorem redundant_parentheses_change_nothing (source : String) (written : List Token)
    (answered : toReversePolish source = .ok written) :
    (∃ lexemes final expression,
        Splits source.toList 0 lexemes final ∧ Reads .sum lexemes expression ∧
          ∀ context sub, Context.plug context sub = expression →
            ∃ before part behind opening closing, source = before ++ part ++ behind ∧
              ShowsPart before part behind context sub opening closing) ∧
      ∀ before part behind context sub opening closing, source = before ++ part ++ behind →
        ShowsPart before part behind context sub opening closing →
          toReversePolish (parenthesized before part behind) = .ok written ∧
            ((∃ value, evaluate source = .ok value ∧
                evaluate (parenthesized before part behind) = .ok value) ∨
              ∃ error, evaluate source = .error (.arithmetic error) ∧
                evaluate (parenthesized before part behind)
                  = .error (.arithmetic (error.relocate (enclosedPlace opening closing)))) ∧
            ∃ final,
              readTokens source
                = .ok (context.before ++ (sub.tokens ++ context.behind)
                    ++ [(.endOfInput, final)]) ∧
              readTokens (parenthesized before part behind)
                = .ok (context.before ++ (.opening, opening) ::
                    (sub.tokens.map (relocatePlaced (· + 1)) ++ (.closing, closing + 1) ::
                      context.behind.map (relocatePlaced (· + 2)))
                    ++ [(.endOfInput, final + 2)]) := by
  refine ⟨?_, ?_⟩
  · obtain ⟨lexemes, final, expression, splits, read⟩ := reads_of_toReversePolish answered
    refine ⟨lexemes, final, expression, splits, read, ?_⟩
    rintro context sub rfl
    exact exists_showsPart splits read
  · rintro before part behind context sub opening closing rfl shows
    obtain ⟨lexemes, final, splits, read, others, splitsOthers, readOthers⟩ := shows.exists_reads
    refine ⟨?_, ?_, final, ?_, ?_⟩
    · have same := toReversePolish_of_reads splits read
      rw [answered] at same
      cases same
      rw [toReversePolish_of_reads splitsOthers readOthers]
      refine congrArg Except.ok (Context.postorder_plug_relocate _ context ?_)
      exact Expression.postorder_relocate _ sub
    · rw [evaluate_of_reads splits read, evaluate_of_reads splitsOthers readOthers,
        shows.value_eq]
      cases (context.plug sub).value with
      | ok value => exact .inl ⟨value, rfl, rfl⟩
      | error error => exact .inr ⟨error, rfl, rfl⟩
    · rw [readTokens_of_reads splits read, Context.tokens_plug]
    · rw [readTokens_of_reads splitsOthers readOthers, shows.tokens_eq]

/-- The `1` in `(2)1%0` is a range of one lexeme, and a star is understood before it. -/
theorem showsPart_numberBehindGroup :
    ShowsPart "(2)" "1" "%0"
      (.inLeft .rem 4 (.inRight .mul 3 (.group 0 (.number 2 1) 2) .hole) (.number 0 5))
      (.number 1 3) 3 4 := by
  have before : Splits "(2)".toList 0 [(.opening, 0), (.number 2, 1), (.closing, 2)] 3 := by
    have inner : Splits ['2', ')'] 1 [(.number 2, 1), (.closing, 2)] 3 :=
      .number ['2'] 2 nofun (List.forall_mem_singleton.mpr rfl) (endsRun_cons.mpr rfl) (by decide)
        (.symbol ')' .closing rfl (.ended 3))
    exact .symbol '(' .opening rfl inner
  have part : Splits "1".toList 3 [(.number 1, 3)] 4 :=
    .number ['1'] 1 nofun (List.forall_mem_singleton.mpr rfl) nofun (by decide) (.ended 4)
  have behind : Splits "%0".toList 4 [(.percent, 4), (.number 0, 5)] 6 := by
    have last : Splits ['0'] 5 [(.number 0, 5)] 6 :=
      .number ['0'] 0 nofun (List.forall_mem_singleton.mpr rfl) nofun (by decide) (.ended 6)
    exact .symbol '%' .percent rfl last
  have range : LexemeRange "(2)".toList "1".toList "%0".toList
      [(.opening, 0), (.number 2, 1), (.closing, 2)] [(.number 1, 3)]
      [(.percent, 4), (.number 0, 5)] 3 4 6 :=
    { splitsBefore := before
      splitsPart := part
      splitsBehind := behind
      parted := .inl (startsRun_concat.mpr rfl : StartsRun (['(', '2'] ++ [')']))
      partedBehind := .inr (endsRun_cons.mpr rfl : EndsRun ['%', '0'])
      starts := ⟨'1', rfl, rfl⟩
      ends := ⟨'1', rfl, rfl⟩ }
  have group : Reads .product ([(.opening, 0), (.number 2, 1)] ++ [(.closing, 2)])
      (.group 0 (.number 2 1) 2) :=
    .ofUnit (.group 0 2 (.ofProduct (.ofUnit (.number 2 1))))
  have factor : Surrounds [(.number 1, 3)] (.number 1 3) .product
      [(.opening, 0), (.number 2, 1), (.closing, 2)] []
      (.inRight .mul 3 (.group 0 (.number 2 1) 2) .hole) :=
    .juxtaposeRight 2 (.number 1) 3 rfl group rfl (.here (.number 1 3))
  exact ⟨_, _, _, 6, range, .ofProduct (.multiplyLeft .percent .rem 4 rfl rfl factor (.number 0 5))⟩

/-- The `1` in `(2)1%0` can stand between parentheses.  It is still multiplied with the group,
and the remainder has no result still, two bytes later. -/
theorem redundant_parentheses_change_nothing_numberBehindGroup :
    toReversePolish "(2)1%0"
        = .ok [.number 2, .number 1, .binary .mul, .number 0, .binary .rem] ∧
      evaluate "(2)1%0" = .error (.arithmetic (.moduloByZero 4)) ∧
      toReversePolish (parenthesized "(2)" "1" "%0")
        = .ok [.number 2, .number 1, .binary .mul, .number 0, .binary .rem] ∧
      evaluate (parenthesized "(2)" "1" "%0") = .error (.arithmetic (.moduloByZero 6)) := by
  obtain ⟨lexemes, final, splits, read, -⟩ := showsPart_numberBehindGroup.exists_reads
  have written : toReversePolish "(2)1%0"
      = .ok [.number 2, .number 1, .binary .mul, .number 0, .binary .rem] :=
    toReversePolish_of_reads splits read
  have value : evaluate "(2)1%0" = .error (.arithmetic (.moduloByZero 4)) :=
    evaluate_of_reads splits read
  obtain ⟨-, changed⟩ := redundant_parentheses_change_nothing "(2)1%0" _ written
  obtain ⟨writtenThere, same, -⟩ := changed "(2)" "1" "%0" _ _ _ _ rfl showsPart_numberBehindGroup
  obtain ⟨result, isResult, -⟩ | ⟨error, isError, there⟩ := same
  · rw [value] at isResult
    cases isResult
  · rw [value] at isError
    cases isError
    exact ⟨written, value, writtenThere, there⟩

end InfixArithmetic
