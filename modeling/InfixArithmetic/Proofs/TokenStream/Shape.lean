import InfixArithmetic.Proofs.TokenStream.Provenance

/-!
# The shape of a stream

Draw as often as one likes, a stream gives what it has to give, in order, and from then on
nothing (`TokenStream.draws_eq`).  From any source these are some tokens and then one item
more, the end or an error.

A stream looks one lexeme ahead and remembers one token, and it promises something about the
tokens that stand side by side (`Neighbours`): a sign stands where an operand has to start, an
addition or subtraction behind an operand, and a number or an opening parenthesis never right
behind a closing one, for the star that is understood between the two is drawn as well.  Only
such a star has the place of the token behind it, since everything written takes up bytes.
That is also why a stream is not much longer than its source: every understood star stands
between two lexemes of its own (`length_tokensAfter_le`).
-/

namespace InfixArithmetic

set_option autoImplicit false

/-! ## Draws -/

namespace TokenStream

/-- **A draw gives the emission whose turn it is**, and nothing once there are no more. -/
theorem draws_eq (stream : TokenStream) (count : Nat) :
    stream.draws count = (List.range count).map fun index => stream.emissions[index]? := by
  induction count generalizing stream with
  | zero => rfl
  | succ count ih =>
      rw [draws, List.range_succ_eq_map, List.map_cons, List.map_map]
      cases drawn : stream.next with
      | none =>
          simp only [ih, emissions_of_next_none drawn]
          rfl
      | some pair =>
          obtain ⟨emission, later⟩ := pair
          simp only [ih, emissions_of_next_some drawn]
          rfl

end TokenStream

theorem map_item_draws (source : String) (count : Nat) :
    ((TokenStream.ofText source).draws count).map (Option.map Emission.item)
      = (List.range count).map fun index => (items source)[index]? := by
  rw [TokenStream.draws_eq, List.map_map]
  refine List.map_congr_left fun index _ => ?_
  rw [items, List.getElem?_map]
  rfl

/-! ## The length of a stream -/

/-- **There is at most one understood star for two lexemes**, unless the first of all stands
right behind a group. -/
theorem length_tokensAfter_le (latest : Option Token) (lexemes : List (Lexeme × Nat)) :
    2 * (tokensAfter latest lexemes).length
      ≤ 3 * lexemes.length + if latest = some .closing then 1 else 0 := by
  induction lexemes generalizing latest with
  | nil => exact Nat.zero_le _
  | cons placed rest ih =>
      obtain ⟨lexeme, position⟩ := placed
      have behind := ih (some (lexeme.tokenAfter latest))
      by_cases implied : TokenStream.impliesStar latest (lexeme.tokenAfter latest) = true
      · have opens : ¬ some (lexeme.tokenAfter latest) = some .closing := by
          intro closes
          rw [Option.some.inj closes] at implied
          cases implied
        rw [if_neg opens] at behind
        rw [tokensAfter_of_implied implied, if_pos (latest_of_impliesStar implied)]
        simp only [List.length_cons]
        omega
      · rw [tokensAfter_of_written implied]
        simp only [List.length_cons]
        split at behind <;> omega

theorem SplitsUpTo.length_le {text rest : List Char} {position place : Nat}
    {lexemes : List (Lexeme × Nat)} (upTo : SplitsUpTo rest place text position lexemes) :
    position + lexemes.length ≤ place := by
  induction upTo with
  | here => exact Nat.le_refl _
  | blank character isBlank behind ih => omega
  | symbol character lexeme isSymbol behind ih =>
      have takesUp := character.utf8Size_pos
      rw [List.length_cons]
      omega
  | number run value nonempty numerals maximal isLiteral behind ih =>
      obtain ⟨character, others, rfl⟩ := List.exists_cons_of_ne_nil nonempty
      have takesUp := character.utf8Size_pos
      rw [Text.byteLength_cons] at ih
      rw [List.length_cons]
      omega

/-! ## Tokens side by side -/

/-- Whether a factor that can stand right behind a group starts with a token. -/
def Token.startsFactor : Token → Bool
  | .number _ | .opening => true
  | .binary _ | .sign _ | .closing | .endOfInput => false

theorem Lexeme.startsFactor_tokenAfter (lexeme : Lexeme) (latest : Option Token) :
    (lexeme.tokenAfter latest).startsFactor = lexeme.startsFactor := by
  cases lexeme with
  | plus | minus =>
      rw [tokenAfter, TokenStream.tokenOf]
      split <;> rfl
  | number | star | slash | percent | opening | closing => rfl

/-- What a token at a position has to do with the tokens right before and right behind it. -/
structure Neighbours (before : Option Token) (token : Token) (position : Nat)
    (next : Option (Token × Nat)) : Prop where
  /-- A sign comes first or where an operand has to follow. -/
  sign : ∀ polarity, token = .sign polarity → ∀ last ∈ before, last.awaitsOperand = true
  /-- Two operands are added or subtracted. -/
  addition : token = .binary .add ∨ token = .binary .sub →
    ∃ last, before = some last ∧ last.completesOperand = true
  /-- No factor stands right behind a group. -/
  factor : token.startsFactor = true → before ≠ some .closing
  /-- A star with the place of the next token is understood between a group and a factor. -/
  star : token = .binary .mul → ∀ other, next = some (other, position) →
    before = some .closing ∧ other.startsFactor = true

namespace Neighbours

variable {before : Option Token} {position : Nat} {next : Option (Token × Nat)}

theorem endOfInput : Neighbours before .endOfInput position next where
  sign := nofun
  addition := nofun
  factor := nofun
  star := nofun

/-- Before a star that is understood there is a group, and a factor behind it. -/
theorem understood {first : Token} (starts : first.startsFactor = true) :
    Neighbours (some .closing) (.binary .mul) position (some (first, position)) where
  sign := nofun
  addition := nofun
  factor := nofun
  star := by
    rintro - other same
    cases same
    exact ⟨rfl, starts⟩

/-- A factor stands behind anything but a group. -/
theorem of_startsFactor {token : Token} (starts : token.startsFactor = true)
    (notClosed : before ≠ some .closing) : Neighbours before token position next where
  sign polarity isSign := by
    rw [isSign] at starts
    cases starts
  addition isSum := by
    obtain rfl | rfl := isSum <;> cases starts
  factor _ := notClosed
  star isStar := by
    rw [isStar] at starts
    cases starts

/-- A lexeme is in order behind other lexemes, if no star is understood before it and what is
next has another place. -/
theorem of_tokenAfter {others : List (Lexeme × Nat)} {lexeme : Lexeme}
    (noStar : ¬ TokenStream.impliesStar (latestAfter none others)
      (lexeme.tokenAfter (latestAfter none others)) = true)
    (apart : next.map Prod.snd ≠ some position) :
    Neighbours (latestAfter none others) (lexeme.tokenAfter (latestAfter none others))
      position next where
  sign polarity isSign := by
    have settled : lexeme.sign?.isSome = true :=
      Option.isSome_of_eq_some (Lexeme.sign?_of_tokenAfter isSign)
    have operand := lexeme.behind_eq_place settled (latestAfter none others)
    rw [isSign] at operand
    exact awaitsAfter_iff.mp (Expectation.behind_eq_operand_iff.mp operand)
  addition isSum := by
    have settled : lexeme.sign?.isSome = true := by
      obtain isOp | isOp := isSum
      all_goals
        have shown := Lexeme.op?_of_tokenAfter isOp
        cases lexeme with
        | plus | minus => rfl
        | number | star | slash | percent | opening | closing => cases shown
    have operator := lexeme.behind_eq_place settled (latestAfter none others)
    rw [← lastToken_tokensAfter_none] at isSum operator ⊢
    refine exists_completesOperand_of_behind ne_endOfInput_of_mem_tokensAfter (operator.trans ?_)
    obtain isOp | isOp := isSum
    all_goals
      rw [isOp]
      rfl
  factor starts closed := by
    rw [Lexeme.startsFactor_tokenAfter] at starts
    rw [closed] at noStar
    exact noStar (impliesStar_of_startsFactor starts _)
  star _ other same := by
    rw [same] at apart
    exact absurd rfl apart

end Neighbours

/-- **Wherever a token of lexemes is drawn, it is in order between its neighbours**, if the
places of the lexemes grow. -/
theorem Drawn.neighbours {position : Nat} {lexemes : List (Lexeme × Nat)}
    {front back ending : List (Token × Nat)} {token : Token}
    (drawn : Drawn none position lexemes front token back)
    (increase : (lexemes.map Prod.snd ++ ending.map Prod.snd).Pairwise (· < ·)) :
    Neighbours (lastToken front) token position (back ++ ending).head? := by
  cases drawn with
  | alone before lexeme behind noStar =>
      rw [lastToken_tokensAfter_none]
      refine .of_tokenAfter noStar ?_
      rw [head?_map_snd_tokensAfter]
      rw [List.map_append, List.append_assoc] at increase
      have later := (List.pairwise_cons.mp (List.pairwise_append.mp increase).2.1).1
      intro shared
      exact Nat.lt_irrefl _ (later position (List.mem_of_mem_head? shared))
  | star before lexeme behind closed starts =>
      rw [lastToken_tokensAfter_none, closed]
      exact .understood ((lexeme.startsFactor_tokenAfter _).trans starts)
  | behindStar before lexeme behind starts =>
      rw [lastToken_concat]
      exact .of_startsFactor ((lexeme.startsFactor_tokenAfter _).trans starts) nofun

/-- All tokens of lexemes are in order between their neighbours, with an end behind them or
without one. -/
theorem neighbours_of_tokensAfter {position : Nat} {lexemes : List (Lexeme × Nat)}
    {front back ending : List (Token × Nat)} {token : Token}
    (increase : (lexemes.map Prod.snd ++ ending.map Prod.snd).Pairwise (· < ·))
    (isEnding : ∀ placed ∈ ending, placed.1 = .endOfInput)
    (seen : tokensAfter none lexemes ++ ending = front ++ (token, position) :: back) :
    Neighbours (lastToken front) token position back.head? := by
  have ofEnding (member : (token, position) ∈ ending) :
      Neighbours (lastToken front) token position back.head? := by
    have isEnd : token = .endOfInput := isEnding _ member
    rw [isEnd]
    exact .endOfInput
  obtain ⟨early, -, cut⟩ | ⟨late, drawn, cut⟩ := List.append_eq_append_iff.mp seen
  · rw [cut] at ofEnding
    exact ofEnding (List.mem_append_right early List.mem_cons_self)
  · cases late with
    | nil =>
        rw [← List.nil_append ending, ← cut] at ofEnding
        exact ofEnding List.mem_cons_self
    | cons placed others =>
        cases cut
        exact (drawn_of_tokensAfter drawn).neighbours increase

/-! ## The shape -/

/-- The shape of the stream of a source: what it gives, and how that is arranged. -/
structure StreamShape (source : String) (tokens : List (Token × Nat)) (last : Item) : Prop where
  /-- Draws give the tokens, then the last item, and then nothing. -/
  drawn : ∀ count, ((TokenStream.ofText source).draws count).map (Option.map Emission.item)
    = (List.range count).map fun index => (streamOf tokens ++ [last])[index]?
  /-- The last item is the end, at the end of the source, or an error. -/
  ends : last = .ok (.endOfInput, source.utf8ByteSize) ∨ ∃ error, last = .error error
  /-- There is no end before. -/
  noEnd : ∀ placed ∈ tokens, placed.1 ≠ .endOfInput
  /-- There are at most three tokens for two bytes. -/
  few : 2 * tokens.length ≤ 3 * source.utf8ByteSize
  /-- Tokens that stand side by side, the end included, are in order. -/
  neighbours : ∀ front token position back,
    tokens ++ last.toOption.toList = front ++ (token, position) :: back →
      Neighbours (lastToken front) token position back.head?

theorem StreamShape.items_eq {source : String} {tokens : List (Token × Nat)} {last : Item}
    (shape : StreamShape source tokens last) : items source = streamOf tokens ++ [last] := by
  refine List.ext_getElem? fun index => ?_
  have same := shape.drawn (index + 1)
  rw [map_item_draws] at same
  exact List.map_inj_left.mp same index (List.mem_range.mpr (Nat.lt_succ_self index))

/-- **The shape of every stream.**  However often one draws from a source, the draws give
tokens, at most three for two bytes, then the end or an error, and from then on nothing.  And
of the tokens, signs stand where an operand has to start, additions and subtractions behind an
operand, and numbers and opening parentheses never right behind a closing one; a star with the
place of the next token is the one that is understood there. -/
theorem every_stream_has_shape (source : String) :
    ∃ tokens last, StreamShape source tokens last := by
  obtain ⟨lexemes, rest, place, last, upTo, items_eq, isLast⟩ := exists_upTo_items source
  obtain ⟨before, split, splits, -⟩ := upTo.exists_splits
  have place_eq : place = Text.byteLength before := splits.final_eq.trans (Nat.zero_add _)
  have size_eq : source.utf8ByteSize = Text.byteLength before + Text.byteLength rest := by
    rw [← Text.byteLength_toList, split, Text.byteLength_append]
  have increase := splits.positions_increase.1
  refine ⟨tokensAfter none lexemes, last, ?_, ?_, ne_endOfInput_of_mem_tokensAfter, ?_, ?_⟩
  · intro count
    rw [map_item_draws, items_eq]
  · obtain isError | ⟨rfl, rfl⟩ := isLast
    · exact .inr isError
    · rw [size_eq, place_eq]
      exact .inl rfl
  · have tokensBound : 2 * (tokensAfter none lexemes).length ≤ 3 * lexemes.length + 0 :=
      length_tokensAfter_le none lexemes
    have lexemesBound := upTo.length_le
    omega
  · intro front token position back seen
    obtain ⟨error, rfl⟩ | ⟨rfl, -⟩ := isLast
    · refine neighbours_of_tokensAfter ?_ (List.forall_mem_nil _) seen
      rw [List.map_nil, List.append_nil]
      exact (List.pairwise_append.mp increase).1
    · exact neighbours_of_tokensAfter increase (List.forall_mem_singleton.mpr rfl) seen

/-- With a star understood between its two parentheses, `)(` has as many tokens as a source of
two bytes can have. -/
theorem every_stream_has_shape_closedBeforeOpened :
    StreamShape ")(" [(.closing, 0), (.binary .mul, 1), (.opening, 1)] (.ok (.endOfInput, 2)) := by
  have splits : Splits ")(".toList 0 [(.closing, 0), (.opening, 1)] 2 :=
    .symbol ')' .closing rfl (.symbol '(' .opening rfl (.ended 2))
  obtain ⟨tokens, last, shape⟩ := every_stream_has_shape ")("
  have found := (items_of_splits splits).symm.trans shape.items_eq
  rw [endedStream_eq] at found
  obtain ⟨sameTokens, sameLast⟩ := List.append_inj' found rfl
  rw [← streamOf_injective sameTokens, ← List.singleton_inj.mp sameLast] at shape
  exact shape

end InfixArithmetic
