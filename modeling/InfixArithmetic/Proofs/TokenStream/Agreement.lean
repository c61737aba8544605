import InfixArithmetic.Proofs.Decimal.Digits
import InfixArithmetic.Proofs.Expression.Diagnosis
import InfixArithmetic.Proofs.Machine.Refinement
import InfixArithmetic.Proofs.TokenStream.Lossless

/-!
# Stream and machine agree on what has to come

A stream decides by the token drawn last whether a plus is a sign, and the machine keeps
a bit of grammar of its own to tell whether a token is in its place.  As long as the
machine accepts what the stream gives, the two say the same, for both are a function of
the last token and of the same one: the stream remembers what it gave, implied stars
included (`TokenStream.Gives.latest_after`), and the machine what it accepted
(`Machine.tracks_after`).

So some errors never come up for a source.  A plus or minus is in its place wherever it
stands, and so is an implied star.  An operator is missing only where a number or an
opening parenthesis comes right behind a number, for behind a closing parenthesis a star
is understood.  For that one has to know where a token comes from and what was drawn
before it (`Drawn`).
-/

namespace InfixArithmetic

set_option autoImplicit false

/-! ## What a stream remembers -/

namespace TokenStream

/-- The first draws from a stream, so many of them, give these tokens. -/
def Gives (stream : TokenStream) (count : Nat) (tokens : List (Token × Nat)) : Prop :=
  (stream.draws count).map (Option.map Emission.item) = tokens.map (some ∘ .ok)

/-- Everything that one draw can be: the stream before it, what is drawn, and the stream
behind it. -/
inductive Draw : TokenStream → Emission → TokenStream → Prop where
  /-- The token held back behind a star. -/
  | held (ahead : Option Scan) (latest : Option Token) (token : Token) (position : Nat) :
    Draw ⟨ahead, some (token, position), latest⟩ (.written token position)
      ⟨ahead, none, some token⟩
  | ended (latest : Option Token) (position : Nat) :
    Draw ⟨some (.ended position), none, latest⟩ (.written .endOfInput position)
      ⟨none, none, some .endOfInput⟩
  | refused (latest : Option Token) (error : ScanError) :
    Draw ⟨some (.refused error), none, latest⟩ (.refused error) ⟨none, none, latest⟩
  /-- The star before a lexeme, whose token is held back. -/
  | implied {latest : Option Token} {lexeme : Lexeme} (position : Nat) (rest : Scan)
      (implied : impliesStar latest (lexeme.tokenAfter latest) = true) :
    Draw ⟨some (.read lexeme position rest), none, latest⟩
      (.implied (lexeme.tokenAfter latest) position)
      ⟨some rest, some (lexeme.tokenAfter latest, position), some (.binary .mul)⟩
  /-- A lexeme with no star before it. -/
  | read {latest : Option Token} {lexeme : Lexeme} (position : Nat) (rest : Scan)
      (written : ¬ impliesStar latest (lexeme.tokenAfter latest) = true) :
    Draw ⟨some (.read lexeme position rest), none, latest⟩
      (.written (lexeme.tokenAfter latest) position)
      ⟨some rest, none, some (lexeme.tokenAfter latest)⟩

theorem draw_of_next {stream later : TokenStream} {emission : Emission}
    (drawn : stream.next = some (emission, later)) : Draw stream emission later := by
  obtain ⟨ahead, held, latest⟩ := stream
  cases held with
  | some pair =>
      cases drawn
      exact .held ahead latest _ _
  | none =>
      cases ahead with
      | none => cases drawn
      | some scan =>
          cases scan with
          | ended position =>
              cases drawn
              exact .ended latest position
          | refused error =>
              cases drawn
              exact .refused latest error
          | read lexeme position rest =>
              have next := next_read lexeme position rest latest
              rw [ofScan, drawn] at next
              split at next
              · cases next
                exact .implied position rest ‹_›
              · cases next
                exact .read position rest ‹_›

theorem latest_of_next {stream later : TokenStream} {emission : Emission} {token : Token}
    {position : Nat} (drawn : stream.next = some (emission, later))
    (isToken : emission.item = .ok (token, position)) : later.latest = some token := by
  cases draw_of_next drawn with
  | held | ended | implied | read =>
      cases isToken
      rfl
  | refused => cases isToken

/-- A star is implied behind a closing parenthesis only. -/
theorem latest_of_next_implied {stream later : TokenStream} {before : Token} {position : Nat}
    (drawn : stream.next = some (.implied before position, later)) :
    stream.latest = some .closing := by
  cases draw_of_next drawn with
  | implied _ rest implied => exact latest_of_impliesStar implied

/-- **Behind its draws a stream remembers the last token that they gave.** -/
theorem Gives.latest_after {stream : TokenStream} {count : Nat} {tokens : List (Token × Nat)}
    (gives : stream.Gives count tokens) :
    (TokenStream.after count stream).latest = (lastToken tokens).or stream.latest := by
  induction count generalizing stream tokens with
  | zero =>
      cases tokens with
      | nil => rfl
      | cons placed rest => cases gives
  | succ count ih =>
      cases tokens with
      | nil =>
          have nothing := List.map_eq_nil_iff.mp gives
          rw [draws] at nothing
          split at nothing <;> cases nothing
      | cons placed rest =>
          obtain ⟨token, position⟩ := placed
          rw [Gives, draws] at gives
          rw [TokenStream.after]
          cases drawn : stream.next with
          | none =>
              rw [drawn] at gives
              cases (List.cons.inj gives).1
          | some pair =>
              obtain ⟨emission, later⟩ := pair
              rw [drawn] at gives
              obtain ⟨isToken, givesRest⟩ := List.cons.inj gives
              have remembers := latest_of_next drawn (Option.some.inj isToken)
              have behind : (TokenStream.after count later).latest = _ := ih givesRest
              rw [remembers] at behind
              rw [lastToken_cons, Option.or_assoc, Option.some_or]
              exact behind

end TokenStream

/-! ## The token before a token -/

theorem lastToken_tokensAfter (latest : Option Token) (lexemes : List (Lexeme × Nat)) :
    (lastToken (tokensAfter latest lexemes)).or latest = latestAfter latest lexemes := by
  induction lexemes generalizing latest with
  | nil => rfl
  | cons placed rest ih =>
      obtain ⟨lexeme, position⟩ := placed
      rw [latestAfter, ← ih]
      by_cases implied : TokenStream.impliesStar latest (lexeme.tokenAfter latest) = true
      · rw [tokensAfter_of_implied implied, lastToken_cons, lastToken_cons]
        simp only [Option.or_assoc, Option.some_or]
      · rw [tokensAfter_of_written implied, lastToken_cons]
        simp only [Option.or_assoc, Option.some_or]

theorem lastToken_tokensAfter_none (lexemes : List (Lexeme × Nat)) :
    lastToken (tokensAfter none lexemes) = latestAfter none lexemes := by
  rw [← lastToken_tokensAfter, Option.or_none]

/-! ## What is always in its place -/

/-- A plus or minus is what the token before it calls for. -/
theorem Lexeme.behind_eq_place {lexeme : Lexeme} (settled : lexeme.sign?.isSome = true)
    (latest : Option Token) : Expectation.behind latest = (lexeme.tokenAfter latest).place := by
  cases awaited : awaitsAfter latest with
  | true =>
      obtain ⟨polarity, shown⟩ := Option.isSome_iff_exists.mp settled
      rw [tokenAfter_of_sign shown awaited, Expectation.behind, awaited]
      rfl
  | false =>
      have isOp : ∃ op, lexeme.op? = some op := by
        cases lexeme with
        | plus | minus => exact ⟨_, rfl⟩
        | number | star | slash | percent | opening | closing => cases settled
      obtain ⟨op, shown⟩ := isOp
      rw [tokenAfter_of_op shown awaited, Expectation.behind, awaited]
      rfl

namespace Drawn

variable {position : Nat} {lexemes : List (Lexeme × Nat)} {front back : List (Token × Nat)}
  {token : Token}

/-- **A plus or minus is in its place wherever it is drawn.** -/
theorem placed_of_sign (drawn : Drawn none position lexemes front token back) {lexeme : Lexeme}
    (shown : token.lexeme? = some lexeme) (settled : lexeme.sign?.isSome = true) :
    Expectation.behind (lastToken front) = token.place := by
  cases drawn with
  | alone before other behind noStar =>
      rw [Lexeme.lexeme?_tokenAfter] at shown
      cases shown
      rw [lastToken_tokensAfter_none]
      exact lexeme.behind_eq_place settled _
  | star before other behind closed starts =>
      cases shown
      cases settled
  | behindStar before other behind starts =>
      rw [Lexeme.lexeme?_tokenAfter] at shown
      cases shown
      cases lexeme with
      | number | opening | star | slash | percent | closing => cases settled
      | plus | minus => cases starts

/-- **An operand starts right behind another only if that is a number.** -/
theorem behind_number (drawn : Drawn none position lexemes front token back) {last : Token}
    (behind : lastToken front = some last) (complete : last.completesOperand = true)
    {lexeme : Lexeme} (shown : token.lexeme? = some lexeme)
    (starts : lexeme.startsFactor = true) :
    ∃ earlier value place others,
      lexemes = earlier ++ (.number value, place) :: (lexeme, position) :: others := by
  cases drawn with
  | alone before other others noStar =>
      rw [Lexeme.lexeme?_tokenAfter] at shown
      cases shown
      rw [lastToken_tokensAfter_none] at behind
      obtain ⟨earlier, first, place, rfl, shownLast⟩ := exists_of_latestAfter behind nofun
      cases last with
      | number value =>
          cases shownLast
          exact ⟨earlier, value, place, others, by simp⟩
      | closing =>
          rw [behind] at noStar
          exact absurd (impliesStar_of_startsFactor starts _) noStar
      | binary | sign | opening | endOfInput => cases complete
  | star before other others closed startsOther =>
      cases shown
      cases starts
  | behindStar before other others startsOther =>
      rw [lastToken_concat] at behind
      cases behind
      cases complete

end Drawn

/-! ## The text of a number is no sign -/

namespace Layout

/-- A digit behind the sign of a number keeps its text from being a sign. -/
theorem signText_append_ne {first : Char} (isDigit : first.isDigit = true)
    (sign : Float.Model.UnpackedFloat.Sign) (rest : List Char) (polarity : Sign) :
    signText sign ++ first :: rest ≠ [polarity.symbol] := by
  intro same
  cases sign with
  | negative =>
      have lengths := congrArg List.length same
      simp [signText] at lengths
  | positive =>
      injection same with head
      rw [head] at isDigit
      cases polarity <;> cases isDigit

/-- **No number is written as a lone sign.** -/
theorem text_plain_ne_sign (number : Float) (polarity : Sign) :
    plain.text number ≠ [polarity.symbol] := by
  rw [text]
  split
  · intro same
    have lengths := congrArg List.length same
    simp at lengths
  · intro same
    have lengths := congrArg List.length same
    simp at lengths
  · exact signText_append_ne rfl _ _ polarity
  · rename_i sign mantissa exponent _ _
    obtain ⟨first, rest, written, isDigit⟩ :=
      plain.exists_positional_eq_cons (Magnitude.shortest ⟨mantissa, exponent⟩)
    rw [magnitudeText_plain, written]
    exact signText_append_ne isDigit _ _ polarity

end Layout

theorem Token.toList_mention {token : Token} (notEnd : token ≠ .endOfInput) :
    token.mention.toList = '\'' :: (token.text ++ ['\'']) := by
  cases token with
  | endOfInput => exact absurd rfl notEnd
  | number | binary | sign | opening | closing => simp [mention]

/-- **Only a plus is mentioned as one**, be it a sign or an operator, and so is a minus. -/
theorem Token.lexeme?_eq_of_mention {token : Token} {polarity : Sign}
    (same : token.mention = (Token.sign polarity).mention) :
    token.lexeme? = (Token.sign polarity).lexeme? := by
  have signNotEnd : Token.sign polarity ≠ .endOfInput := nofun
  by_cases ended : token = .endOfInput
  · subst ended
    exact absurd same.symm (mention_ne_endOfInput signNotEnd)
  have letters := congrArg String.toList same
  rw [toList_mention ended, toList_mention signNotEnd] at letters
  have texts : token.text = [polarity.symbol] :=
    List.append_cancel_right (List.cons.inj letters).2
  cases token with
  | number value => exact absurd texts (Layout.text_plain_ne_sign value polarity)
  | endOfInput => exact absurd rfl ended
  | binary op =>
      have symbols : op.symbol = polarity.symbol := (List.cons.inj texts).1
      revert symbols
      cases op <;> cases polarity <;> decide
  | sign other =>
      have symbols : other.symbol = polarity.symbol := (List.cons.inj texts).1
      revert symbols
      cases other <;> cases polarity <;> decide
  | opening | closing =>
      have symbols := (List.cons.inj texts).1
      revert symbols
      cases polarity <;> decide

/-! ## Errors of a source -/

/-- The lexemes that a source shows up to its end, or up to its first flaw. -/
def ShowsLexemes (source : String) (lexemes : List (Lexeme × Nat)) : Prop :=
  (∃ final, Splits source.toList 0 lexemes final) ∨
    ∃ error, Faulty source.toList 0 lexemes error

/-- The items of a source are the tokens of the lexemes that it shows and one more item,
the end or an error. -/
theorem exists_showsLexemes (source : String) :
    ∃ lexemes last, ShowsLexemes source lexemes ∧
      items source = streamOf (tokensAfter none lexemes) ++ [last] ∧
      ∀ token position, last = .ok (token, position) → token = .endOfInput := by
  obtain ⟨lexemes, ⟨final, splits⟩ | ⟨error, faulty⟩⟩ := splits_or_faulty source.toList 0
  · refine ⟨lexemes, .ok (.endOfInput, final), .inl ⟨final, splits⟩, ?_, ?_⟩
    · rw [items_of_splits splits, endedStream_eq]
    · rintro token position ⟨⟩
      rfl
  · exact ⟨lexemes, .error error, .inr ⟨error, faulty⟩, items_of_faulty faulty, nofun⟩

/-- A token of a stream of tokens with one more item is that item, with all the tokens before
it, or one of the tokens. -/
theorem exists_of_streamOf_append {tokens front : List (Token × Nat)} {token : Token}
    {position : Nat} {last : Item} {others : List Item}
    (cut : streamOf tokens ++ [last] = streamOf front ++ .ok (token, position) :: others) :
    (tokens = front ∧ last = .ok (token, position)) ∨
      ∃ back, tokens = front ++ (token, position) :: back := by
  obtain rfl | ⟨between, item, rfl⟩ := List.eq_nil_or_concat others
  · obtain ⟨same, isLast⟩ := List.append_inj' cut rfl
    exact .inl ⟨streamOf_injective same, (List.cons.inj isLast).1⟩
  · rw [List.concat_eq_append, ← List.cons_append, ← List.append_assoc] at cut
    obtain ⟨same, -⟩ := List.append_inj' cut rfl
    obtain ⟨earlier, back, rfl, sameFront, sameBack⟩ := List.map_eq_append_iff.mp same
    obtain rfl : earlier = front := streamOf_injective sameFront
    obtain ⟨placed, back, rfl, isToken, -⟩ := List.map_eq_cons_iff.mp sameBack
    cases isToken
    exact .inr ⟨back, rfl⟩

/-- **A grammatical error of a source is about the end or about a token drawn for its
lexemes**, and a rule names it. -/
theorem drawn_of_toReversePolish {source : String} {error : GrammarError}
    (refused : toReversePolish source = .error (.grammar error)) :
    ∃ lexemes front token position, ShowsLexemes source lexemes ∧
      Diagnosis front position token error ∧
      (token = .endOfInput ∨ ∃ back, Drawn none position lexemes front token back) := by
  obtain ⟨front, token, position, rest, cut, -, diagnosis, stop⟩ := diagnosis_of_polishRun refused
  obtain ⟨lexemes, last, shows, items_eq, isEnd⟩ := exists_showsLexemes source
  refine ⟨lexemes, front, token, position, shows, diagnosis, ?_⟩
  obtain ⟨others, rfl⟩ | ⟨-, ended⟩ := stop
  · obtain ⟨-, isLast⟩ | ⟨back, seen⟩ := exists_of_streamOf_append (items_eq.symm.trans cut)
    · exact .inl (isEnd token position isLast)
    · exact .inr ⟨back, drawn_of_tokensAfter seen⟩
  · exact .inl ended

/-- Whether an error says that a token, so mentioned, stands where something else is
missing. -/
def GrammarError.Misses (error : GrammarError) (found : String) (position : Nat) : Prop :=
  error = .missingOperand found position ∨ error = .missingOperator found position

theorem Diagnosis.misplaced {before : List (Token × Nat)} {position place : Nat} {token : Token}
    {error : GrammarError} {found : String} (diagnosis : Diagnosis before position token error)
    (misses : error.Misses found place) :
    found = token.mention ∧ Expectation.behind (lastToken before) ≠ token.place := by
  cases diagnosis with
  | missingOperator behind complete starts =>
      obtain same | same := misses <;> cases same
      refine ⟨rfl, ?_⟩
      rw [behind, Expectation.behind_eq_operator complete, Token.place_of_startsOperand starts]
      decide
  | missingLeft op awaited =>
      obtain same | same := misses <;> cases same
      exact ⟨rfl, Expectation.behind_ne_place awaited rfl⟩
  | missingInside awaited notOpened =>
      obtain same | same := misses <;> cases same
      exact ⟨rfl, Expectation.behind_ne_place awaited rfl⟩
  | missingAtEnd behind awaited =>
      obtain same | same := misses <;> cases same
      rw [behind]
      exact ⟨rfl, Expectation.behind_ne_place (by rintro last ⟨⟩; exact awaited) rfl⟩
  | emptyGroup | unmatchedClosing | emptyExpression | unclosedOpening =>
      obtain same | same := misses <;> cases same

/-- **Nothing is missing where a plus or minus stands.** -/
theorem ne_sign_of_toReversePolish {source : String} {error : GrammarError} {found : String}
    {place : Nat} (refused : toReversePolish source = .error (.grammar error))
    (misses : error.Misses found place) (polarity : Sign) :
    found ≠ (Token.sign polarity).mention := by
  obtain ⟨lexemes, front, token, position, -, diagnosis, ended | ⟨back, drawn⟩⟩ :=
    drawn_of_toReversePolish refused
  · obtain ⟨rfl, -⟩ := diagnosis.misplaced misses
    have signNotEnd : Token.sign polarity ≠ .endOfInput := nofun
    subst ended
    exact (Token.mention_ne_endOfInput signNotEnd).symm
  · obtain ⟨rfl, misplaced⟩ := diagnosis.misplaced misses
    intro same
    have shown := Token.lexeme?_eq_of_mention same
    cases polarity <;> exact misplaced (drawn.placed_of_sign shown rfl)

/-- **An operator is missing only right behind a number.** -/
theorem behind_number_of_toReversePolish {source found : String} {position : Nat}
    (refused : toReversePolish source = .error (.grammar (.missingOperator found position))) :
    ∃ lexemes front value place first behind, ShowsLexemes source lexemes ∧
      lexemes = front ++ (.number value, place) :: (first, position) :: behind ∧
      first.startsFactor = true := by
  have notSign := ne_sign_of_toReversePolish refused (.inr rfl)
  obtain ⟨lexemes, front, token, place, shows, diagnosis, drawn⟩ := drawn_of_toReversePolish refused
  cases diagnosis with
  | missingOperator behind complete starts =>
      have starter : ∃ first, token.lexeme? = some first ∧ first.startsFactor = true := by
        cases token with
        | number | opening => exact ⟨_, rfl, rfl⟩
        | sign polarity => exact absurd rfl (notSign polarity)
        | binary | closing | endOfInput => cases starts
      obtain ⟨first, shown, startsFactor⟩ := starter
      obtain rfl | ⟨back, drawn⟩ := drawn
      · cases starts
      · obtain ⟨earlier, value, left, others, rfl⟩ :=
          drawn.behind_number behind complete shown startsFactor
        exact ⟨_, earlier, value, left, first, others, shows, rfl, startsFactor⟩

/-! ## Lockstep -/

/-- **Stream and machine are in lockstep.**  As long as the machine accepts the tokens that
the stream of a source gives, whatever its operand side, the stream awaits an operand
exactly when the machine expects one, and a star that is implied next is in its place.  So
neither reading of a source ever misses anything at a plus or minus, and an operator is
missing only where a number or an opening parenthesis comes right behind a number. -/
theorem stream_and_machine_in_lockstep (source : String) :
    (∀ (σ β : Type) [OperandSide σ β] (side : σ) (count : Nat) (tokens : List (Token × Nat)),
        (TokenStream.ofText source).Gives count tokens →
        (Machine.start side).Accepts (β := β) tokens →
          ((TokenStream.after count (.ofText source)).awaitsOperand = true ↔
              ((Machine.start side).after (β := β) tokens).expectation = .operand) ∧
            ∀ before position later,
              (TokenStream.after count (.ofText source)).next
                  = some (.implied before position, later) →
                ((Machine.start side).after (β := β) tokens).expectation
                  = (Token.binary .mul).place) ∧
      ∀ error, (evaluate source = .error (.grammar error) ∨
          toReversePolish source = .error (.grammar error)) →
        (∀ found position, error.Misses found position → found ≠ "'+'" ∧ found ≠ "'-'") ∧
          ∀ found position, error = .missingOperator found position →
            ∃ lexemes front value place first behind, ShowsLexemes source lexemes ∧
              lexemes = front ++ (.number value, place) :: (first, position) :: behind ∧
              first.startsFactor = true := by
  constructor
  · intro σ β _ side count tokens gives accepts
    have remembers := gives.latest_after
    have fresh : (TokenStream.ofText source).latest = none := rfl
    rw [fresh, Option.or_none] at remembers
    have expects := (Machine.tracks_after (β := β) side accepts).expectation_eq
    rw [expects, ← remembers]
    refine ⟨Expectation.behind_eq_operand_iff.symm, fun before position later drawn => ?_⟩
    rw [TokenStream.latest_of_next_implied drawn]
    rfl
  · intro error refusedEither
    have refused : toReversePolish source = .error (.grammar error) :=
      refusedEither.elim (toReversePolish_of_refusal (.inr ⟨error, rfl⟩)) id
    refine ⟨fun found position misses => ?_, ?_⟩
    · have notSign := ne_sign_of_toReversePolish refused misses
      exact ⟨notSign .plus, notSign .minus⟩
    · rintro found position rfl
      exact behind_number_of_toReversePolish refused

/-- In `(1)2(` a star is implied behind the group, where the machine expects an operator,
and an operator is missing at the last parenthesis, which comes right behind a number. -/
theorem stream_and_machine_in_lockstep_groupBeforeNumber :
    let stream := TokenStream.ofText "(1)2("
    let tokens : List (Token × Nat) := [(.opening, 0), (.number 1, 1), (.closing, 2)]
    let machine := Machine.start ({} : ReversePolish)
    stream.Gives 3 tokens ∧ machine.Accepts tokens ∧
      (∃ later, (TokenStream.after 3 stream).next = some (.implied (.number 2) 3, later)) ∧
      (machine.after tokens).expectation = (Token.binary .mul).place ∧
      toReversePolish "(1)2(" = .error (.grammar (.missingOperator "'('" 4)) ∧
      ∃ lexemes front value place first behind, ShowsLexemes "(1)2(" lexemes ∧
        lexemes = front ++ (.number value, place) :: (first, 4) :: behind ∧
        first.startsFactor = true := by
  intro stream tokens machine
  have scanned : stream = TokenStream.ofScan (Scan.chain
      [(.opening, 0), (.number 1, 1), (.closing, 2), (.number 2, 3), (.opening, 4)] (.ended 5))
      none := congrArg (TokenStream.ofScan · none) splits_groupBeforeNumber.scan_eq
  have gives : stream.Gives 3 tokens := by
    rw [scanned]
    rfl
  have accepts : machine.Accepts tokens := by
    simp only [tokens, Machine.accepts_cons]
    exact ⟨rfl, rfl, rfl, Machine.accepts_nil _⟩
  have implied : ∃ later,
      (TokenStream.after 3 stream).next = some (.implied (.number 2) 3, later) := by
    rw [scanned]
    exact ⟨_, rfl⟩
  have refused : toReversePolish "(1)2(" = .error (.grammar (.missingOperator "'('" 4)) := by
    rw [toReversePolish, items_of_splits splits_groupBeforeNumber]
    rfl
  obtain ⟨lockstep, errors⟩ := stream_and_machine_in_lockstep "(1)2("
  obtain ⟨later, next⟩ := implied
  exact ⟨gives, accepts, ⟨later, next⟩, (lockstep _ _ _ 3 tokens gives accepts).2 _ _ _ next,
    refused, (errors _ (.inr refused)).2 _ _ rfl⟩

end InfixArithmetic
