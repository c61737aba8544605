import InfixArithmetic.Proofs.Arithmetic.Finite
import InfixArithmetic.Proofs.Machine.PendingSigns
import InfixArithmetic.Proofs.TokenStream.Agreement
import InfixArithmetic.Proofs.TokenStream.Blanks

/-!
# Signs that cancel

Where an operand has to start, every plus and minus is a sign, however many of them there are.
An even number of minus signs changes no number, since a number that is negated twice is the
same, bit for bit.  So such signs mean as much as blanks in their place, and blanks mean
nothing: `even_signs_cancel`.

The signs are read first (`itemsAfter_signs`): they become tokens, and what is behind them
finds a sign before it and not what was before the signs, which makes no difference where both
await an operand.  Then the machine keeps them until their operand is complete
(`valueRun_signTokens`), and that operand is the number or the group right behind them, not a
product or sum that starts there.
-/

namespace InfixArithmetic

set_option autoImplicit false

/-! ## What signs make of a number -/

/-- **Signs negate a number if there is an odd number of minus signs among them**, and keep it
otherwise. -/
theorem signedBy_eq (signs : List (Sign × Nat)) (value : Float) :
    signedBy signs value
      = if Even ((signs.map Prod.fst).count .minus) then value else -value := by
  induction signs generalizing value with
  | nil => simp [signedBy]
  | cons sign rest ih =>
      obtain ⟨polarity, position⟩ := sign
      have behind : signedBy ((polarity, position) :: rest) value
          = signedBy rest (polarity.apply value) := rfl
      rw [behind, ih, List.map_cons]
      cases polarity with
      | plus => simp [Sign.apply]
      | minus =>
          by_cases even : Even ((rest.map Prod.fst).count .minus)
          · simp [Sign.apply, even, Nat.even_add_one]
          · simp [Sign.apply, even, Nat.even_add_one, negated_twice]

/-- An even number of minus signs changes nothing, in whatever order the signs are applied. -/
theorem signedBy_reverse_of_even {signs : List Sign} (even : Even (signs.count .minus))
    (position : Nat) (value : Float) :
    signedBy (signs.zipIdx position).reverse value = value := by
  rw [signedBy_eq, List.map_reverse, List.count_reverse, List.zipIdx_map_fst, if_pos even]

theorem exists_signs_of_text {text : List Char}
    (areSigns : ∀ character ∈ text, character = '+' ∨ character = '-') :
    ∃ signs : List Sign, text = signs.map Sign.symbol ∧
      text.count '-' = signs.count .minus := by
  induction text with
  | nil => exact ⟨[], rfl, rfl⟩
  | cons character rest ih =>
      obtain ⟨first, others⟩ := List.forall_mem_cons.mp areSigns
      obtain ⟨signs, rfl, count_eq⟩ := ih others
      rcases first with rfl | rfl
      · exact ⟨.plus :: signs, rfl, by simpa using count_eq⟩
      · exact ⟨.minus :: signs, rfl, by simpa using count_eq⟩

/-! ## How signs are read -/

theorem Lexeme.tokenAfter_of_awaited {latest other : Option Token}
    (awaited : awaitsAfter latest = true) (awaitedOther : awaitsAfter other = true)
    (lexeme : Lexeme) : lexeme.tokenAfter latest = lexeme.tokenAfter other := by
  cases lexeme with
  | plus | minus =>
      rw [tokenAfter_of_sign rfl awaited, tokenAfter_of_sign rfl awaitedOther]
  | number | star | slash | percent | opening | closing => rfl

/-- Anything that awaits an operand has the same items behind it. -/
theorem itemsAfter_of_awaited {latest other : Option Token}
    (awaited : awaitsAfter latest = true) (awaitedOther : awaitsAfter other = true)
    (scan : Scan) : itemsAfter latest scan = itemsAfter other scan := by
  cases scan with
  | read lexeme position rest =>
      rw [itemsAfter_read, itemsAfter_read,
        tokensAfter_of_written (not_impliesStar_of_awaits awaited _),
        tokensAfter_of_written (not_impliesStar_of_awaits awaitedOther _),
        lexeme.tokenAfter_of_awaited awaited awaitedOther]
  | refused error => rw [itemsAfter_refused, itemsAfter_refused]
  | ended final => rw [itemsAfter_ended, itemsAfter_ended]

/-- **Where an operand has to start, a text of signs is read as these signs**, and what is
behind it as it would be without them. -/
theorem itemsAfter_signs {latest : Option Token} (awaited : awaitsAfter latest = true)
    (signs : List Sign) (rest : List Char) (position : Nat) :
    itemsAfter latest (Scan.ofChars (signs.map Sign.symbol ++ rest) position)
      = streamOf (signTokens (signs.zipIdx position))
        ++ itemsAfter latest (Scan.ofChars rest (position + signs.length)) := by
  induction signs generalizing latest position with
  | nil => rfl
  | cons polarity signs ih =>
      obtain ⟨lexeme, isSymbol, shown⟩ :
          ∃ lexeme, Lexeme.ofSymbol? polarity.symbol = some lexeme ∧
            lexeme.sign? = some polarity := by
        cases polarity with
        | plus => exact ⟨.plus, rfl, rfl⟩
        | minus => exact ⟨.minus, rfl, rfl⟩
      have oneByte : polarity.symbol.utf8Size = 1 := by cases polarity <;> rfl
      have behindSign : awaitsAfter (some (.sign polarity)) = true := rfl
      rw [List.map_cons, List.cons_append, Scan.ofChars_symbol isSymbol, itemsAfter_read,
        tokensAfter_of_written (not_impliesStar_of_awaits awaited _),
        Lexeme.tokenAfter_of_sign shown awaited, oneByte, ih behindSign,
        itemsAfter_of_awaited behindSign awaited, List.length_cons, Nat.add_assoc,
        Nat.add_comm 1 signs.length]
      rfl

/-! ## Texts that await an operand -/

/-- A text ends no run of digits and points, if an operand has to come behind it. -/
theorem Splits.startsRun {text : List Char} {final : Nat} {lexemes : List (Lexeme × Nat)}
    (splits : Splits text 0 lexemes final)
    (awaited : awaitsAfter (latestAfter none lexemes) = true) : StartsRun text := by
  obtain rfl | ⟨front, placed, rfl⟩ := List.eq_nil_or_concat lexemes
  · obtain ⟨blanks, rfl, areBlank⟩ := splits.upTo.exists_blanks
    rw [List.append_nil]
    intro character isLast
    exact isNumeral_of_isBlank (areBlank character (List.mem_of_getLast? isLast))
  · obtain ⟨lexeme, mark⟩ := placed
    have upTo : SplitsUpTo [] final (text ++ []) 0 (front ++ [(lexeme, mark)]) := by
      rw [List.append_nil, ← List.concat_eq_append]
      exact splits.upTo
    rw [List.concat_eq_append, latestAfter_append, latestAfter, latestAfter] at awaited
    cases lexeme with
    | number | closing => cases awaited
    | plus | minus | star | slash | percent | opening => exact (upTo.lastShown rfl).startsRun rfl

/-! ## Signs and blanks -/

/-- As many blanks as one likes. -/
def spaces (count : Nat) : String :=
  String.ofList (List.replicate count ' ')

theorem isBlank_of_mem_spaces (count : Nat) :
    ∀ blank ∈ (spaces count).toList, Text.isBlank blank = true := by
  intro blank member
  rw [spaces, String.toList_ofList] at member
  rw [List.eq_of_mem_replicate member]
  rfl

theorem byteLength_spaces (count : Nat) : Text.byteLength (spaces count).toList = count := by
  rw [spaces, String.toList_ofList]
  induction count with
  | zero => rfl
  | succ count ih =>
      rw [List.replicate_succ, Text.byteLength_cons, ih, Nat.add_comm]
      rfl

/-- **Signs that cancel mean as much as blanks.** -/
theorem evaluate_signs_iff_spaces {before behind : String} {lexemes : List (Lexeme × Nat)}
    {final : Nat} (splits : Splits before.toList 0 lexemes final)
    (awaited : awaitsAfter (latestAfter none lexemes) = true) {signs : List Sign}
    (even : Even (signs.count .minus)) (value : Float) :
    evaluate (before ++ (String.ofList (signs.map Sign.symbol) ++ behind)) = .ok value ↔
      evaluate (before ++ (spaces signs.length ++ behind)) = .ok value := by
  have starts := splits.startsRun awaited
  have awaitedTokens :
      ∀ last ∈ lastToken (tokensAfter none lexemes), last.awaitsOperand = true := by
    rw [lastToken_tokensAfter_none]
    exact awaitsAfter_iff.mp awaited
  rw [evaluate, evaluate, splits.items_append (.inl starts), splits.items_append (.inl starts),
    String.toList_append, String.toList_append, String.toList_ofList, itemsAfter_signs awaited,
    Scan.ofChars_blanks (isBlank_of_mem_spaces _), byteLength_spaces]
  exact valueRun_signTokens ne_endOfInput_of_mem_tokensAfter awaitedTokens
    (signedBy_reverse_of_even even final) (itemsAfter_ne_nil _ _) value

theorem mapError_eq_ok_iff {ε δ α : Type} {change : ε → δ} {answer : Except ε α} {value : α} :
    answer.mapError change = .ok value ↔ answer = .ok value := by
  cases answer <;> simp [Except.mapError]

/-- **Signs cancel wherever an operand may start.**  Between a text that is read and whose last
token, if there is one, awaits an operand, and any other text, any plus and minus signs can be
put, as long as there is an even number of minus signs.  The value is the same number then, if
there is one, and there is none otherwise. -/
theorem even_signs_cancel (before signs behind : String) {tokens : List (Token × Nat)}
    (read : ∃ final, readTokens before = .ok (tokens ++ [(.endOfInput, final)]))
    (awaited : ∀ last ∈ lastToken tokens, last.awaitsOperand = true)
    (areSigns : ∀ character ∈ signs.toList, character = '+' ∨ character = '-')
    (even : Even (signs.toList.count '-')) (value : Float) :
    evaluate (before ++ signs ++ behind) = .ok value ↔ evaluate (before ++ behind) = .ok value := by
  obtain ⟨final, read⟩ := read
  obtain ⟨lexemes, splits, rfl⟩ := exists_splits_of_readTokens read
  rw [lastToken_tokensAfter_none] at awaited
  have awaitedLexemes := awaitsAfter_iff.mpr awaited
  obtain ⟨polarities, shown, count_eq⟩ := exists_signs_of_text areSigns
  have signs_eq : signs = String.ofList (polarities.map Sign.symbol) := by
    rw [← shown, String.ofList_toList]
  rw [count_eq] at even
  have blanks := (blanks_change_nothing before (spaces polarities.length) behind
    (isBlank_of_mem_spaces _) (.inl (splits.startsRun awaitedLexemes))).2.1
  calc evaluate (before ++ signs ++ behind) = .ok value
    _ ↔ evaluate (before ++ (spaces polarities.length ++ behind)) = .ok value := by
      rw [signs_eq, String.append_assoc]
      exact evaluate_signs_iff_spaces splits awaitedLexemes even value
    _ ↔ evaluate (before ++ behind) = .ok value := by
      rw [← String.append_assoc, blanks]
      exact mapError_eq_ok_iff

theorem splits_firstFactor : Splits "2*".toList 0 [(.number 2, 0), (.star, 1)] 2 :=
  .number ['2'] 2 nofun (List.forall_mem_singleton.mpr rfl) (endsRun_cons.mpr rfl) (by decide)
    (.symbol '*' .star rfl (.ended 2))

/-- The split of a product with a negated group, and a subtraction behind it. -/
theorem splits_negatedFactor :
    Splits "2*-(3)-1".toList 0 [(.number 2, 0), (.star, 1), (.minus, 2), (.opening, 3),
      (.number 3, 4), (.closing, 5), (.minus, 6), (.number 1, 7)] 8 := by
  have last : Splits ['1'] 7 [(.number 1, 7)] 8 :=
    .number ['1'] 1 nofun (List.forall_mem_singleton.mpr rfl) nofun (by decide) (.ended 8)
  have inner : Splits ['3', ')', '-', '1'] 4
      [(.number 3, 4), (.closing, 5), (.minus, 6), (.number 1, 7)] 8 :=
    .number ['3'] 3 nofun (List.forall_mem_singleton.mpr rfl) (endsRun_cons.mpr rfl) (by decide)
      (.symbol ')' .closing rfl (.symbol '-' .minus rfl last))
  exact .number ['2'] 2 nofun (List.forall_mem_singleton.mpr rfl) (endsRun_cons.mpr rfl)
    (by decide) (.symbol '*' .star rfl (.symbol '-' .minus rfl (.symbol '(' .opening rfl inner)))

/-- In `2*-+--(3)-1` three signs are put before the sign of the group.  All four wait below the
group, and are applied to its value and not to the difference. -/
theorem even_signs_cancel_negatedFactor :
    readTokens "2*" = .ok ([(.number 2, 0), (.binary .mul, 1)] ++ [(.endOfInput, 2)]) ∧
      (∀ character ∈ "-+-".toList, character = '+' ∨ character = '-') ∧
      Even ("-+-".toList.count '-') ∧
      evaluate ("2*" ++ "-(3)-1") = .ok (-7) ∧
      evaluate ("2*" ++ "-+-" ++ "-(3)-1") = .ok (-7) := by
  have read : readTokens "2*"
      = .ok ([(.number 2, 0), (.binary .mul, 1)] ++ [(.endOfInput, 2)]) :=
    readTokens_of_splits splits_firstFactor
  have areSigns : ∀ character ∈ ['-', '+', '-'], character = '+' ∨ character = '-' := by simp
  have even : Even ("-+-".toList.count '-') := by decide
  have value : evaluate ("2*" ++ "-(3)-1") = .ok (-7) := by
    show (valueRun (items "2*-(3)-1")).answer = _
    rw [items_of_splits splits_negatedFactor]
    decide +kernel
  have awaited : ∀ last ∈ lastToken [(.number 2, 0), (.binary .mul, 1)],
      last.awaitsOperand = true := by
    rintro last ⟨rfl⟩
    rfl
  exact ⟨read, areSigns, even, value,
    (even_signs_cancel "2*" "-+-" "-(3)-1" ⟨2, read⟩ awaited areSigns even (-7)).mpr value⟩

end InfixArithmetic
