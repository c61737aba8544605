import InfixArithmetic.Proofs.Expression.Source
import InfixArithmetic.Proofs.Lexeme.Cut
import Mathlib.Data.List.Forall2

/-!
# The tokens of a source show its lexemes

A source that is read has one token for each of its lexemes, at the place of the
lexeme, and besides them the stars that are understood.  Nothing but its place gives an
understood star away: it stands where the next token stands, and no written token does,
for every lexeme takes up at least one byte.  So `withoutImplied`, which looks at tokens
and places only, leaves just what is written.

Main statement: `readTokens_lossless`.  It also says when a source cannot be read, which
is when it has a flaw, and that the error is then that of the first one.
-/

namespace InfixArithmetic

set_option autoImplicit false

/-! ## What a source gives -/

theorem streamOf_injective {tokens others : List (Token × Nat)}
    (same : streamOf tokens = streamOf others) : tokens = others :=
  List.map_injective_iff.mpr (fun _ _ => Except.ok.inj) same

theorem collect_streamOf_append (tokens : List (Token × Nat)) (rest : List Item) :
    collect (streamOf tokens ++ rest) = (collect rest).map (tokens ++ ·) := by
  induction tokens with
  | nil =>
      show collect rest = (collect rest).map _
      cases collect rest <;> rfl
  | cons placed others ih =>
      rw [streamOf, List.map_cons, List.cons_append, collect, ← streamOf, ih]
      cases collect rest <;> rfl

theorem collect_streamOf (tokens : List (Token × Nat)) :
    collect (streamOf tokens) = .ok tokens := by
  have collected := collect_streamOf_append tokens []
  rw [List.append_nil] at collected
  rw [collected]
  exact congrArg Except.ok (List.append_nil tokens)

theorem collect_streamOf_error (tokens : List (Token × Nat)) (error : ScanError)
    (rest : List Item) : collect (streamOf tokens ++ .error error :: rest) = .error error :=
  collect_streamOf_append tokens (.error error :: rest)

theorem readTokens_of_splits {source : String} {lexemes : List (Lexeme × Nat)} {final : Nat}
    (splits : Splits source.toList 0 lexemes final) :
    readTokens source = .ok (tokensAfter none lexemes ++ [(.endOfInput, final)]) := by
  rw [readTokens, items_of_splits splits, endedStream, collect_streamOf]

theorem readTokens_of_faulty {source : String} {lexemes : List (Lexeme × Nat)}
    {error : ScanError} (faulty : Faulty source.toList 0 lexemes error) :
    readTokens source = .error error := by
  rw [readTokens, items_of_faulty faulty, collect_streamOf_error]

theorem exists_splits_of_readTokens {source : String} {tokens : List (Token × Nat)} {final : Nat}
    (read : readTokens source = .ok (tokens ++ [(.endOfInput, final)])) :
    ∃ lexemes, Splits source.toList 0 lexemes final ∧ tokensAfter none lexemes = tokens := by
  obtain ⟨lexemes, ⟨last, splits⟩ | ⟨error, faulty⟩⟩ := splits_or_faulty source.toList 0
  · have same := Except.ok.inj ((readTokens_of_splits splits).symm.trans read)
    obtain ⟨sameTokens, sameEnd⟩ := List.append_inj' same rfl
    cases sameEnd
    exact ⟨lexemes, splits, sameTokens⟩
  · cases (readTokens_of_faulty faulty).symm.trans read

/-! ## Written tokens -/

/-- The token that stands in the source, if it is one. -/
def Emission.written? : Emission → Option (Token × Nat)
  | .written token position => some (token, position)
  | .implied _ _ | .refused _ => none

/-- The written tokens of lexemes behind a token. -/
def writtenAfter (latest : Option Token) (lexemes : List (Lexeme × Nat)) : List (Token × Nat) :=
  (emissionsAfter latest lexemes).filterMap Emission.written?

theorem writtenAfter_cons (latest : Option Token) (lexeme : Lexeme) (position : Nat)
    (rest : List (Lexeme × Nat)) :
    writtenAfter latest ((lexeme, position) :: rest)
      = (lexeme.tokenAfter latest, position)
        :: writtenAfter (some (lexeme.tokenAfter latest)) rest := by
  rw [writtenAfter, emissionsAfter]
  split <;> rfl

/-- Whether a placed token is that of a placed lexeme. -/
def Token.Shows (token : Token × Nat) (lexeme : Lexeme × Nat) : Prop :=
  token.1.lexeme? = some lexeme.1 ∧ token.2 = lexeme.2

/-- **There is one written token for each lexeme, in order and in place.** -/
theorem shows_writtenAfter (latest : Option Token) (lexemes : List (Lexeme × Nat)) :
    List.Forall₂ Token.Shows (writtenAfter latest lexemes) lexemes := by
  induction lexemes generalizing latest with
  | nil => exact .nil
  | cons placed rest ih =>
      obtain ⟨lexeme, position⟩ := placed
      rw [writtenAfter_cons]
      exact .cons ⟨lexeme.lexeme?_tokenAfter latest, rfl⟩ (ih _)

theorem map_snd_writtenAfter (latest : Option Token) (lexemes : List (Lexeme × Nat)) :
    (writtenAfter latest lexemes).map Prod.snd = lexemes.map Prod.snd := by
  induction lexemes generalizing latest with
  | nil => rfl
  | cons placed rest ih =>
      obtain ⟨lexeme, position⟩ := placed
      rw [writtenAfter_cons, List.map_cons, List.map_cons, ih]

/-! ## Stars that share a place -/

/-- Placed tokens without every star that stands where the next token stands. -/
def withoutImplied : List (Token × Nat) → List (Token × Nat)
  | [] => []
  | placed :: rest =>
      if placed.1 = .binary .mul ∧ rest.head?.map Prod.snd = some placed.2 then
        withoutImplied rest
      else
        placed :: withoutImplied rest

theorem withoutImplied_star (token : Token) (position : Nat) (rest : List (Token × Nat)) :
    withoutImplied ((.binary .mul, position) :: (token, position) :: rest)
      = withoutImplied ((token, position) :: rest) := by
  rw [withoutImplied, if_pos ⟨rfl, rfl⟩]

theorem withoutImplied_of_alone {token : Token} {position : Nat} {rest : List (Token × Nat)}
    (alone : rest.head?.map Prod.snd ≠ some position) :
    withoutImplied ((token, position) :: rest) = (token, position) :: withoutImplied rest := by
  rw [withoutImplied, if_neg fun shared => alone shared.2]

theorem head?_map_snd_tokensAfter (latest : Option Token) (lexemes : List (Lexeme × Nat))
    (ending : List (Token × Nat)) :
    (tokensAfter latest lexemes ++ ending).head?.map Prod.snd
      = (lexemes.map Prod.snd ++ ending.map Prod.snd).head? := by
  cases lexemes with
  | nil => exact List.head?_map.symm
  | cons placed rest =>
      obtain ⟨lexeme, position⟩ := placed
      rw [tokensAfter]
      split <;> rfl

/-- **What is left without the stars that share a place is what is written.** -/
theorem withoutImplied_tokensAfter (latest : Option Token) {lexemes : List (Lexeme × Nat)}
    {final : Nat} (increase : (lexemes.map Prod.snd ++ [final]).Pairwise (· < ·)) :
    withoutImplied (tokensAfter latest lexemes ++ [(.endOfInput, final)])
      = writtenAfter latest lexemes ++ [(.endOfInput, final)] := by
  induction lexemes generalizing latest with
  | nil => rfl
  | cons placed rest ih =>
      obtain ⟨lexeme, position⟩ := placed
      obtain ⟨later, increase⟩ := List.pairwise_cons.mp increase
      let token := lexeme.tokenAfter latest
      let ahead := tokensAfter (some token) rest ++ [(.endOfInput, final)]
      have alone : ahead.head?.map Prod.snd ≠ some position := by
        rw [head?_map_snd_tokensAfter]
        intro shared
        exact Nat.lt_irrefl _ (later position (List.mem_of_mem_head? shared))
      have kept : withoutImplied ((token, position) :: ahead)
          = writtenAfter latest ((lexeme, position) :: rest) ++ [(.endOfInput, final)] := by
        rw [withoutImplied_of_alone alone, ih _ increase, writtenAfter_cons]
        rfl
      by_cases implied : TokenStream.impliesStar latest token = true
      · rw [tokensAfter_of_implied implied]
        exact (withoutImplied_star token position ahead).trans kept
      · rw [tokensAfter_of_written implied]
        exact kept

theorem filterMap_written_of_splits {source : String} {lexemes : List (Lexeme × Nat)}
    {final : Nat} (splits : Splits source.toList 0 lexemes final) :
    (TokenStream.ofText source).emissions.filterMap Emission.written?
      = writtenAfter none lexemes ++ [(.endOfInput, final)] := by
  rw [emissions_of_splits splits, List.filterMap_append, writtenAfter]
  rfl

/-! ## Reading a source -/

/-- **Reading loses nothing and keeps every place.**  When a source is read, its tokens
without the stars that share a place with the next token are one for each lexeme of the
one split of the source, in order and at the place where the lexeme stands, and then the
end behind the last byte.  Their places grow, and the stars left out are those that are
understood and no others.  A source is refused exactly when it has a flaw, by the error
of the first one. -/
theorem readTokens_lossless (source : String) :
    (∀ tokens, readTokens source = .ok tokens →
        ∃ lexemes kept,
          Splits source.toList 0 lexemes source.utf8ByteSize ∧
            (∀ others final, Splits source.toList 0 others final →
              others = lexemes ∧ final = source.utf8ByteSize) ∧
            (∀ lexeme place, (lexeme, place) ∈ lexemes →
              ∃ before shown behind, source.toList = before ++ (shown ++ behind) ∧
                Lexeme.Stands before behind shown lexeme ∧ place = Text.byteLength before) ∧
            withoutImplied tokens = kept ++ [(.endOfInput, source.utf8ByteSize)] ∧
            List.Forall₂ Token.Shows kept lexemes ∧
            ((withoutImplied tokens).map Prod.snd).Pairwise (· < ·) ∧
            withoutImplied tokens
              = (TokenStream.ofText source).emissions.filterMap Emission.written?) ∧
      ((∃ error, readTokens source = .error error) ↔
        ∃ before behind error, source.toList = before ++ behind ∧ Flaw before behind error) ∧
        ∀ error, readTokens source = .error error ↔ FirstFlaw source.toList error := by
  obtain ⟨lexemes, ⟨final, splits⟩ | ⟨error, faulty⟩⟩ := splits_or_faulty source.toList 0
  · have read := readTokens_of_splits splits
    have increase := splits.positions_increase.1
    have left := withoutImplied_tokensAfter none increase
    have flawless : ∀ before behind error, source.toList = before ++ behind →
        ¬ Flaw before behind error := fun before behind error split => (split ▸ splits).not_flaw
    obtain rfl : final = source.utf8ByteSize := by
      rw [splits.final_eq, Nat.zero_add, Text.byteLength_toList]
    refine ⟨fun tokens readOther => ?_, ⟨?_, ?_⟩, fun error => ⟨?_, ?_⟩⟩
    · cases read.symm.trans readOther
      refine ⟨lexemes, writtenAfter none lexemes, splits,
        fun others place splitsOther => splitsOther.unique splits,
        splits.stands, left, shows_writtenAfter none lexemes,
        ?_, left.trans (filterMap_written_of_splits splits).symm⟩
      rw [left, List.map_append, map_snd_writtenAfter]
      exact increase
    · rintro ⟨error, refused⟩
      cases read.symm.trans refused
    · rintro ⟨before, behind, error, split, flaw⟩
      exact absurd flaw (flawless before behind error split)
    · intro refused
      cases read.symm.trans refused
    · rintro ⟨before, behind, split, flaw, -⟩
      exact absurd flaw (flawless before behind error split)
  · have refused := readTokens_of_faulty faulty
    have first := faulty.firstFlaw
    obtain ⟨before, behind, split, flaw, -⟩ := id first
    refine ⟨fun tokens read => ?_, ⟨fun _ => ⟨before, behind, error, split, flaw⟩,
      fun _ => ⟨error, refused⟩⟩, fun other => ⟨fun refusedOther => ?_, fun firstOther => ?_⟩⟩
    · cases refused.symm.trans read
    · cases refused.symm.trans refusedOther
      exact first
    · rw [refused, first.unique firstOther]

/-- The split of a group before a number, where a star is understood, and of a parenthesis
behind the number, where none is. -/
theorem splits_groupBeforeNumber :
    Splits "(1)2(".toList 0
      [(.opening, 0), (.number 1, 1), (.closing, 2), (.number 2, 3), (.opening, 4)] 5 := by
  have last : Splits ['2', '('] 3 [(.number 2, 3), (.opening, 4)] 5 :=
    .number ['2'] 2 nofun (List.forall_mem_singleton.mpr rfl) (endsRun_cons.mpr rfl) (by decide)
      (.symbol '(' .opening rfl (.ended 5))
  have inner : Splits ['1', ')', '2', '('] 1
      [(.number 1, 1), (.closing, 2), (.number 2, 3), (.opening, 4)] 5 :=
    .number ['1'] 1 nofun (List.forall_mem_singleton.mpr rfl) (endsRun_cons.mpr rfl) (by decide)
      (.symbol ')' .closing rfl last)
  exact .symbol '(' .opening rfl inner

/-- The understood star stands where the number behind the group stands, and the number
is what is left there. -/
theorem readTokens_lossless_groupBeforeNumber :
    readTokens "(1)2(" = .ok [(.opening, 0), (.number 1, 1), (.closing, 2), (.binary .mul, 3),
        (.number 2, 3), (.opening, 4), (.endOfInput, 5)] ∧
      ∃ lexemes kept, Splits "(1)2(".toList 0 lexemes "(1)2(".utf8ByteSize ∧
        withoutImplied [(.opening, 0), (.number 1, 1), (.closing, 2), (.binary .mul, 3),
            (.number 2, 3), (.opening, 4), (.endOfInput, 5)]
          = kept ++ [(.endOfInput, "(1)2(".utf8ByteSize)] ∧
          List.Forall₂ Token.Shows kept lexemes := by
  have read := readTokens_of_splits splits_groupBeforeNumber
  obtain ⟨lexemes, kept, splits, -, -, left, shown, -, -⟩ :=
    (readTokens_lossless "(1)2(").1 _ read
  exact ⟨read, lexemes, kept, splits, left, shown⟩

end InfixArithmetic
