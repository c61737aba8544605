import InfixArithmetic.Proofs.Lexeme.Cut
import InfixArithmetic.Proofs.Lexeme.Relocation

/-!
# Ranges of lexemes

Lexemes that follow each other in a source are shown by a part of its text, which begins where
the first of them stands and ends where the last of them ends.  `LexemeRange` says that a text
is cut in front of some lexemes and behind them, and there is such a cut for any of them
(`Splits.exists_range`).

What is put in at the two cuts moves the lexemes behind it and changes none of them, as long as
it lets no run of digits and points go on.  So a range can be put between parentheses, and the
lexemes are the same but for the two parentheses (`LexemeRange.splits_enclosed`).
-/

namespace InfixArithmetic

set_option autoImplicit false

/-! ## Texts one behind the other -/

/-- Texts that split can be put one behind the other, if no run goes on between them. -/
theorem Splits.append {front back : List Char} {position place final : Nat}
    {lexemes others : List (Lexeme × Nat)} (splitsFront : Splits front position lexemes place)
    (splitsBack : Splits back place others final) (parted : StartsRun front ∨ EndsRun back) :
    Splits (front ++ back) position (lexemes ++ others) final :=
  (splitsFront.upTo.append parted).splits splitsBack

/-- A text that starts later splits into the same lexemes, which are as much later. -/
theorem Splits.later {text : List Char} {position final : Nat} {lexemes : List (Lexeme × Nat)}
    (splits : Splits text position lexemes final) (width : Nat) :
    Splits text (position + width) (lexemes.map (relocatePlaced (· + width))) (final + width) := by
  refine .of_scan_eq ?_
  rw [Scan.ofChars_relocate fun place _ => (rfl : (· + width) place = place + width),
    splits.scan_eq, Scan.chain_relocate]
  rfl

namespace SplitsUpTo

variable {text middle rest : List Char} {position mark place : Nat}
  {lexemes others : List (Lexeme × Nat)}

theorem trans (upTo : SplitsUpTo middle mark text position lexemes)
    (later : SplitsUpTo rest place middle mark others) :
    SplitsUpTo rest place text position (lexemes ++ others) := by
  induction upTo with
  | here => exact later
  | blank character isBlank _ ih => exact .blank character isBlank ih
  | symbol character lexeme isSymbol _ ih => exact .symbol character lexeme isSymbol ih
  | number run value nonempty numerals maximal isLiteral _ ih =>
      exact .number run value nonempty numerals maximal isLiteral ih

end SplitsUpTo

namespace Lexeme.Stands

variable {before behind shown : List Char} {lexeme : Lexeme}

theorem upTo (stands : Stands before behind shown lexeme) (position : Nat) :
    SplitsUpTo behind (position + Text.byteLength shown) (shown ++ behind) position
      [(lexeme, position)] := by
  cases stands with
  | symbol character isSymbol => exact .symbol character lexeme isSymbol .here
  | number maximal isLiteral =>
      exact .number shown _ maximal.nonempty maximal.numerals maximal.ends isLiteral .here

/-- What stands for a lexeme is no blank. -/
theorem notBlank (stands : Stands before behind shown lexeme) :
    shown ≠ [] ∧ ∀ character ∈ shown, Text.isBlank character = false := by
  cases stands with
  | symbol character isSymbol =>
      exact ⟨List.cons_ne_nil _ _, List.forall_mem_singleton.mpr (kind_of_symbol isSymbol).1⟩
  | number maximal isLiteral =>
      exact ⟨maximal.nonempty, fun character member =>
        isBlank_of_isNumeral (maximal.numerals character member)⟩

end Lexeme.Stands

/-! ## Cuts between lexemes -/

namespace Splits

variable {text : List Char} {position final : Nat} {front back : List (Lexeme × Nat)}

theorem exists_cut_before (splits : Splits text position (front ++ back) final)
    (nonempty : back ≠ []) :
    ∃ before first behind place, text = before ++ first :: behind ∧
      Splits before position front place ∧ Splits (first :: behind) place back final ∧
        (StartsRun before ∨ EndsRun (first :: behind)) ∧ Text.isBlank first = false := by
  obtain ⟨⟨lexeme, mark⟩, others, rfl⟩ := List.exists_cons_of_ne_nil nonempty
  obtain ⟨shown, behind, earlier, later, stands⟩ := splits.upTo.exists_cut
  obtain ⟨before, rfl, splitsBefore, parted⟩ := earlier.exists_splits
  have there := stands before parted
  obtain ⟨shownNonempty, notBlank⟩ := there.notBlank
  obtain ⟨first, shown, rfl⟩ := List.exists_cons_of_ne_nil shownNonempty
  obtain ⟨other, same, splitsBehind, -⟩ := ((there.upTo mark).trans later).exists_splits
  rw [List.append_nil] at same
  subst same
  exact ⟨before, first, shown ++ behind, mark, rfl, splitsBefore, splitsBehind, parted,
    notBlank first List.mem_cons_self⟩

theorem exists_cut_behind (splits : Splits text position (front ++ back) final)
    (nonempty : front ≠ []) :
    ∃ before last behind place, text = before ++ [last] ++ behind ∧
      Splits (before ++ [last]) position front place ∧ Splits behind place back final ∧
        (StartsRun (before ++ [last]) ∨ EndsRun behind) ∧ Text.isBlank last = false := by
  obtain ⟨earlierLexemes, ⟨lexeme, mark⟩, rfl⟩ :=
    (List.eq_nil_or_concat front).resolve_left nonempty
  rw [List.concat_eq_append, List.append_assoc] at splits
  obtain ⟨shown, behind, earlier, later, stands⟩ := splits.upTo.exists_cut
  obtain ⟨before, rfl, splitsBefore, parted⟩ := earlier.exists_splits
  have there := stands before parted
  obtain ⟨shownNonempty, notBlank⟩ := there.notBlank
  obtain ⟨others, last, rfl⟩ := (List.eq_nil_or_concat shown).resolve_left shownNonempty
  obtain ⟨cut, same, splitsCut, partedCut⟩ := (earlier.trans (there.upTo mark)).exists_splits
  obtain ⟨rest, sameBehind, splitsBehind, -⟩ := later.exists_splits
  rw [List.append_nil] at sameBehind
  subst sameBehind
  rw [← List.append_assoc, List.append_cancel_right_eq] at same
  subst same
  have whole : before ++ others.concat last = before ++ others ++ [last] := by
    rw [List.concat_eq_append, List.append_assoc]
  rw [whole] at splitsCut partedCut
  refine ⟨before ++ others, last, behind, _, ?_, ?_, splitsBehind, partedCut,
    notBlank last (by simp)⟩
  · rw [← whole, List.append_assoc]
  · rwa [List.concat_eq_append]

end Splits

/-! ## Ranges -/

/-- Three texts one behind the other, of which the middle one shows a range of lexemes and
starts and ends with it: no run of digits and points goes across a cut, and there are no
blanks at its two ends. -/
structure LexemeRange (before part behind : List Char) (front inside back : List (Lexeme × Nat))
    (opening closing final : Nat) : Prop where
  splitsBefore : Splits before 0 front opening
  splitsPart : Splits part opening inside closing
  splitsBehind : Splits behind closing back final
  parted : StartsRun before ∨ EndsRun (part ++ behind)
  partedBehind : StartsRun part ∨ EndsRun behind
  starts : ∃ first ∈ part.head?, Text.isBlank first = false
  ends : ∃ last ∈ part.getLast?, Text.isBlank last = false

/-- **Lexemes that follow each other are a range of the text.** -/
theorem Splits.exists_range {text : List Char} {front inside back : List (Lexeme × Nat)}
    {final : Nat} (splits : Splits text 0 (front ++ (inside ++ back)) final)
    (nonempty : inside ≠ []) :
    ∃ before part behind opening closing, text = before ++ (part ++ behind) ∧
      LexemeRange before part behind front inside back opening closing final := by
  obtain ⟨before, first, rest, opening, rfl, splitsBefore, splitsRest, parted, notBlankFirst⟩ :=
    splits.exists_cut_before (List.append_ne_nil_of_left_ne_nil nonempty back)
  obtain ⟨others, last, behind, closing, same, splitsPart, splitsBehind, partedBehind,
    notBlankLast⟩ := splitsRest.exists_cut_behind nonempty
  rw [same] at parted ⊢
  refine ⟨before, others ++ [last], behind, opening, closing, rfl, splitsBefore, splitsPart,
    splitsBehind, parted, partedBehind, ?_, last, by simp, notBlankLast⟩
  refine ⟨first, ?_, notBlankFirst⟩
  have sameHead := congrArg List.head? same
  rw [List.head?_append_of_ne_nil _ (by simp)] at sameHead
  exact sameHead.symm

namespace LexemeRange

variable {before part behind : List Char} {front inside back : List (Lexeme × Nat)}
  {opening closing final : Nat}

/-- The lexemes of the whole text are those of its three parts. -/
theorem splits (range : LexemeRange before part behind front inside back opening closing final) :
    Splits (before ++ (part ++ behind)) 0 (front ++ (inside ++ back)) final :=
  range.splitsBefore.append (range.splitsPart.append range.splitsBehind range.partedBehind)
    range.parted

/-- **Between parentheses a range has the same lexemes**, and so has the text around it. -/
theorem splits_enclosed
    (range : LexemeRange before part behind front inside back opening closing final) :
    Splits (before ++ '(' :: (part ++ ')' :: behind)) 0
      (front ++ (.opening, opening) :: (inside.map (relocatePlaced (· + 1))
        ++ (.closing, closing + 1) :: back.map (relocatePlaced (· + 2)))) (final + 2) := by
  have closed : Splits (')' :: behind) (closing + 1)
      ((.closing, closing + 1) :: back.map (relocatePlaced (· + 2))) (final + 2) :=
    .symbol ')' .closing rfl (range.splitsBehind.later 2)
  have inner := (range.splitsPart.later 1).append closed (.inr (endsRun_cons.mpr rfl))
  exact range.splitsBefore.append (.symbol '(' .opening rfl inner) (.inr (endsRun_cons.mpr rfl))

/-! ## Places in a range -/

theorem lt_opening
    (range : LexemeRange before part behind front inside back opening closing final) :
    ∀ placed ∈ front, placed.2 < opening :=
  range.splitsBefore.upTo.lt_place

theorem closing_le
    (range : LexemeRange before part behind front inside back opening closing final) :
    ∀ placed ∈ back, closing ≤ placed.2 := by
  intro placed member
  refine range.splitsBehind.positions_increase.2 placed.2 ?_
  exact List.mem_append_left _ (List.mem_map_of_mem member)

/-- The first lexeme of a range stands where it starts. -/
theorem exists_first
    (range : LexemeRange before part behind front inside back opening closing final) :
    ∃ lexeme others, inside = (lexeme, opening) :: others := by
  obtain ⟨first, isFirst, notBlank⟩ := range.starts
  have splitsPart := range.splitsPart
  cases splitsPart with
  | ended => cases isFirst
  | blank character isBlank behind =>
      cases isFirst
      rw [isBlank] at notBlank
      cases notBlank
  | symbol character lexeme isSymbol behind => exact ⟨lexeme, _, rfl⟩
  | number run value => exact ⟨.number value, _, rfl⟩

theorem place_of_head?
    (range : LexemeRange before part behind front inside back opening closing final) :
    ∀ placed ∈ inside.head?, placed.2 = opening := by
  obtain ⟨lexeme, others, rfl⟩ := range.exists_first
  intro placed isFirst
  cases isFirst
  rfl

theorem opening_lt_closing
    (range : LexemeRange before part behind front inside back opening closing final) :
    opening < closing := by
  obtain ⟨lexeme, others, rfl⟩ := range.exists_first
  exact range.splitsPart.upTo.lt_place _ List.mem_cons_self

/-- The others stand behind it, before the end of the range. -/
theorem between
    (range : LexemeRange before part behind front inside back opening closing final) :
    ∀ placed ∈ inside.tail, opening < placed.2 ∧ placed.2 < closing := by
  intro placed member
  obtain ⟨lexeme, others, rfl⟩ := range.exists_first
  obtain ⟨increase, -⟩ := range.splitsPart.positions_increase
  have later := (List.pairwise_cons.mp increase).1 placed.2
    (List.mem_append_left _ (List.mem_map_of_mem member))
  exact ⟨later, range.splitsPart.upTo.lt_place _ (List.mem_cons_of_mem _ member)⟩

end LexemeRange

end InfixArithmetic
