import InfixArithmetic.Proofs.TokenStream.Agreement

/-!
# Where the tokens of a source come from

Up to where its reading stops a source splits into lexemes, and its items are the tokens of
these lexemes and one more item, an error or the end (`exists_upTo_items`).  So an error
among its items makes a source faulty, any other item but the end is drawn for a lexeme, and a
grammatical error is about one of those or about the end (`diagnosis_of_source`).
-/

namespace InfixArithmetic

set_option autoImplicit false

/-! ## Lexemes of tokens -/

namespace Drawn

variable {latest : Option Token} {position : Nat} {lexemes : List (Lexeme × Nat)}
  {front back : List (Token × Nat)} {token : Token}

/-- A star that is out of place is written, for an understood one never is. -/
theorem mem_of_awaited (drawn : Drawn none position lexemes front token back)
    (awaited : ∀ last ∈ lastToken front, last.awaitsOperand = true) {lexeme : Lexeme}
    (shown : token.lexeme? = some lexeme) : (lexeme, position) ∈ lexemes := by
  obtain ⟨before, behind, rfl, -⟩ | ⟨-, before, rfl, closed⟩ := drawn.cases_of_shown shown
  · exact List.mem_append_right before List.mem_cons_self
  · rw [lastToken_tokensAfter_none, closed] at awaited
    cases awaited .closing rfl

theorem ne_endOfInput (drawn : Drawn latest position lexemes front token back) :
    token ≠ .endOfInput := by
  intro isEnd
  have nothing : token.lexeme? = none := by rw [isEnd]; rfl
  cases drawn with
  | alone before lexeme behind noStar => cases nothing.symm.trans (lexeme.lexeme?_tokenAfter _)
  | star before lexeme behind closed starts => cases isEnd
  | behindStar before lexeme behind starts => cases nothing.symm.trans (lexeme.lexeme?_tokenAfter _)

theorem exists_of_closing (drawn : Drawn latest position lexemes front .closing back) :
    ∃ before behind, lexemes = before ++ (.closing, position) :: behind ∧
      front = tokensAfter latest before := by
  obtain ⟨before, behind, rfl, -, rfl | starts⟩ | ⟨isStar, -⟩ := drawn.cases_of_shown rfl
  · exact ⟨before, behind, rfl, rfl⟩
  · cases starts
  · cases isStar

theorem exists_of_opening (drawn : Drawn latest position lexemes front .opening back) :
    ∃ before behind, lexemes = before ++ (.opening, position) :: behind ∧
      back = tokensAfter (some .opening) behind := by
  obtain ⟨before, behind, rfl, rfl, -⟩ | ⟨isStar, -⟩ := drawn.cases_of_shown rfl
  · exact ⟨before, behind, rfl, rfl⟩
  · cases isStar

end Drawn

/-! ## Errors and the items of a source -/

/-- A source splits up to where its reading stops, and its items are the tokens before that
and one more, an error or the end. -/
theorem exists_upTo_items (source : String) :
    ∃ lexemes rest place last, SplitsUpTo rest place source.toList 0 lexemes ∧
      items source = streamOf (tokensAfter none lexemes) ++ [last] ∧
        ((∃ error, last = .error error) ∨ (last = .ok (.endOfInput, place) ∧ rest = [])) := by
  obtain ⟨lexemes, ⟨final, splits⟩ | ⟨error, faulty⟩⟩ := splits_or_faulty source.toList 0
  · refine ⟨lexemes, [], final, .ok (.endOfInput, final), splits.upTo, ?_, .inr ⟨rfl, rfl⟩⟩
    rw [items_of_splits splits, endedStream_eq]
  · obtain ⟨rest, place, upTo, -⟩ := faulty.exists_upTo
    exact ⟨lexemes, rest, place, _, upTo, items_of_faulty faulty, .inl ⟨error, rfl⟩⟩

theorem exists_faulty_of_mem_items {source : String} {error : ScanError}
    (member : .error error ∈ items source) :
    ∃ lexemes, Faulty source.toList 0 lexemes error := by
  have noError : ∀ tokens, .error error ∉ streamOf tokens := by
    intro tokens isToken
    obtain ⟨_, -, same⟩ := List.mem_map.mp isToken
    cases same
  obtain ⟨lexemes, ⟨final, splits⟩ | ⟨other, faulty⟩⟩ := splits_or_faulty source.toList 0
  · rw [items_of_splits splits] at member
    exact absurd member (noError _)
  · rw [items_of_faulty faulty, List.mem_append, List.mem_singleton] at member
    cases member.resolve_left (noError _)
    exact ⟨lexemes, faulty⟩

/-- **A grammatical error of a source is about a token drawn for its lexemes, or about its
end**, and a rule names it behind the tokens before, which are all accepted. -/
theorem diagnosis_of_source {source : String} {error : GrammarError}
    (refused : toReversePolish source = .error (.grammar error)) :
    ∃ lexemes rest place, SplitsUpTo rest place source.toList 0 lexemes ∧
      ((∃ front token position back, (Machine.start ({} : ReversePolish)).Accepts front ∧
          Diagnosis front position token error ∧
          Drawn none position lexemes front token back) ∨
        (rest = [] ∧ (Machine.start ({} : ReversePolish)).Accepts (tokensAfter none lexemes) ∧
          Diagnosis (tokensAfter none lexemes) place .endOfInput error)) := by
  obtain ⟨front, token, position, others, cut, accepts, diagnosis, stop⟩ :=
    diagnosis_of_polishRun refused
  obtain ⟨lexemes, rest, place, last, upTo, items_eq, isLast⟩ := exists_upTo_items source
  refine ⟨lexemes, rest, place, upTo, ?_⟩
  have seen := items_eq.symm.trans cut
  obtain ⟨later, rfl⟩ | ⟨rfl, rfl⟩ := stop
  · obtain ⟨rfl, found⟩ | ⟨back, drawn⟩ := exists_of_streamOf_append seen
    · obtain ⟨error, same⟩ | ⟨same, atEnd⟩ := isLast
      · cases found.symm.trans same
      · cases found.symm.trans same
        exact .inr ⟨atEnd, accepts, diagnosis⟩
    · exact .inl ⟨front, token, position, back, accepts, diagnosis, drawn_of_tokensAfter drawn⟩
  · rw [List.append_nil] at seen
    have member : last ∈ streamOf front := seen ▸ List.mem_append_right _ List.mem_cons_self
    obtain ⟨placed, found, same⟩ := List.mem_map.mp member
    obtain ⟨error, isError⟩ | ⟨isEnd, -⟩ := isLast
    · cases same.trans isError
    · cases same.trans isEnd
      exact absurd rfl (Machine.ne_endOfInput_of_accepts accepts _ found)

theorem exists_upTo_of_mem_items {source : String} {token : Token} {position : Nat}
    (member : .ok (token, position) ∈ items source) (notEnd : token ≠ .endOfInput) :
    ∃ lexemes rest place, SplitsUpTo rest place source.toList 0 lexemes ∧
      (token, position) ∈ tokensAfter none lexemes := by
  obtain ⟨lexemes, rest, place, last, upTo, items_eq, isLast⟩ := exists_upTo_items source
  refine ⟨lexemes, rest, place, upTo, ?_⟩
  rw [items_eq, List.mem_append, List.mem_singleton] at member
  obtain isToken | rfl := member
  · obtain ⟨placed, found, same⟩ := List.mem_map.mp isToken
    cases same
    exact found
  · obtain ⟨error, same⟩ | ⟨same, -⟩ := isLast
    · cases same
    · cases same
      exact absurd rfl notEnd

end InfixArithmetic
