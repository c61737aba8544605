import InfixArithmetic.Proofs.Lexeme.UpTo
import Mathlib.Data.String.Basic

/-!
# Cutting a text at its lexemes

A text that splits up to some place can be cut at each of its lexemes: it splits up to the
lexeme, the lexeme stands there, and behind it the text splits on (`SplitsUpTo.exists_stands`).
So what is known of a lexeme by the lexemes around it is known of the text around its place.
The lexeme before a place is what stands there last, blanks aside (`SplitsUpTo.lastShown`).

Every lexeme takes up at least one byte, so the places of lexemes grow
(`Splits.positions_increase`).
-/

namespace InfixArithmetic

set_option autoImplicit false

/-! ## What stands for a lexeme -/

/-- A lexeme between the text before it and the text behind it, as it is written there. -/
inductive Lexeme.Stands (before behind : List Char) : List Char → Lexeme → Prop where
  | symbol {lexeme : Lexeme} (character : Char)
      (isSymbol : Lexeme.ofSymbol? character = some lexeme) :
    Stands before behind [character] lexeme
  | number {run : List Char} {value : Float} (maximal : MaximalRun before run behind)
      (isLiteral : Literal.read run = .ok value) :
    Stands before behind run (.number value)

namespace Lexeme

/-- The character that a lexeme is written with, if it is a symbol. -/
def symbol? : Lexeme → Option Char
  | .number _ => none
  | .plus => some '+'
  | .minus => some '-'
  | .star => some '*'
  | .slash => some '/'
  | .percent => some '%'
  | .opening => some '('
  | .closing => some ')'

theorem symbol?_of_ofSymbol? {character : Char} {lexeme : Lexeme}
    (isSymbol : ofSymbol? character = some lexeme) : lexeme.symbol? = some character := by
  unfold ofSymbol? at isSymbol
  split at isSymbol
  all_goals first | cases isSymbol; rfl | cases isSymbol

namespace Stands

variable {before behind shown : List Char}

theorem eq_symbol {lexeme : Lexeme} {symbol : Char} (stands : Stands before behind shown lexeme)
    (written : lexeme.symbol? = some symbol) : shown = [symbol] := by
  cases stands with
  | symbol character isSymbol =>
      cases written.symm.trans (symbol?_of_ofSymbol? isSymbol)
      rfl
  | number maximal isLiteral => cases written

/-- A number stands there as a run that is as long as can be. -/
theorem maximal {value : Float} (stands : Stands before behind shown (.number value)) :
    MaximalRun before shown behind ∧ Literal.read shown = .ok value := by
  generalize isNumber : Lexeme.number value = lexeme at stands
  cases stands with
  | symbol character isSymbol =>
      subst isNumber
      cases symbol?_of_ofSymbol? isSymbol
  | number maximal isLiteral =>
      cases isNumber
      exact ⟨maximal, isLiteral⟩

end Stands

end Lexeme

/-! ## Cuts -/

namespace SplitsUpTo

variable {text rest : List Char} {position place mark : Nat} {front back : List (Lexeme × Nat)}
  {lexeme : Lexeme}

/-- **A text can be cut in front of a lexeme and behind it.** -/
theorem exists_cut
    (upTo : SplitsUpTo rest place text position (front ++ (lexeme, mark) :: back)) :
    ∃ shown behind, SplitsUpTo (shown ++ behind) mark text position front ∧
      SplitsUpTo rest place behind (mark + Text.byteLength shown) back ∧
        ∀ before, StartsRun before ∨ EndsRun (shown ++ behind) →
          Lexeme.Stands before behind shown lexeme := by
  generalize seen : front ++ (lexeme, mark) :: back = lexemes at upTo
  induction upTo generalizing front with
  | here => exact absurd seen (List.append_ne_nil_of_right_ne_nil front nofun)
  | blank character isBlank _ ih =>
      obtain ⟨shown, behind, earlier, later, stands⟩ := ih seen
      exact ⟨shown, behind, .blank character isBlank earlier, later, stands⟩
  | symbol character other isSymbol later ih =>
      cases front with
      | nil =>
          cases seen
          exact ⟨[character], _, .here, later, fun _ _ => .symbol character isSymbol⟩
      | cons first front =>
          obtain ⟨rfl, others⟩ := List.cons.inj seen
          obtain ⟨shown, behind, earlier, later, stands⟩ := ih others
          exact ⟨shown, behind, .symbol character other isSymbol earlier, later, stands⟩
  | number run value nonempty numerals maximal isLiteral later ih =>
      cases front with
      | nil =>
          cases seen
          refine ⟨run, _, .here, later, fun before parted => ?_⟩
          have begins := startsRun_of_numerals nonempty numerals parted
          exact .number ⟨nonempty, numerals, begins, maximal⟩ isLiteral
      | cons first front =>
          obtain ⟨rfl, others⟩ := List.cons.inj seen
          obtain ⟨shown, behind, earlier, later, stands⟩ := ih others
          exact ⟨shown, behind, .number run value nonempty numerals maximal isLiteral earlier,
            later, stands⟩

/-- **Each lexeme stands at its place**, between what the lexemes before it and those behind
it are split from. -/
theorem exists_stands (upTo : SplitsUpTo rest place text 0 (front ++ (lexeme, mark) :: back)) :
    ∃ before shown behind, text = before ++ (shown ++ behind) ∧ mark = Text.byteLength before ∧
      Lexeme.Stands before behind shown lexeme ∧ SplitsUpTo (shown ++ behind) mark text 0 front ∧
        SplitsUpTo rest place behind (mark + Text.byteLength shown) back := by
  obtain ⟨shown, behind, earlier, later, stands⟩ := upTo.exists_cut
  obtain ⟨before, split, placed, parted⟩ := earlier.exists_before
  rw [Nat.zero_add] at placed
  exact ⟨before, shown, behind, split, placed, stands before parted, earlier, later⟩

/-- Without lexemes there are blanks only. -/
theorem exists_blanks (upTo : SplitsUpTo rest place text position []) :
    ∃ blanks, text = blanks ++ rest ∧ ∀ blank ∈ blanks, Text.isBlank blank = true := by
  generalize nothing : ([] : List (Lexeme × Nat)) = lexemes at upTo
  induction upTo with
  | here => exact ⟨[], rfl, List.forall_mem_nil _⟩
  | blank character isBlank _ ih =>
      obtain ⟨blanks, rfl, areBlank⟩ := ih nothing
      exact ⟨character :: blanks, rfl, List.forall_mem_cons.mpr ⟨isBlank, areBlank⟩⟩
  | symbol | number => cases nothing

end SplitsUpTo

/-- Whether a character comes last in a text, blanks aside. -/
def LastShown (character : Char) (text : List Char) : Prop :=
  ∃ front blanks, text = front ++ character :: blanks ∧
    ∀ blank ∈ blanks, Text.isBlank blank = true

namespace LastShown

variable {first second : Char} {text : List Char}

/-- It is what is left last when blanks are taken off the end. -/
theorem head?_dropWhile (shown : LastShown first text) (notBlank : Text.isBlank first = false) :
    (text.reverse.dropWhile Text.isBlank).head? = some first := by
  obtain ⟨front, blanks, rfl, areBlank⟩ := shown
  have reversed : ∀ blank ∈ blanks.reverse, Text.isBlank blank = true :=
    fun blank member => areBlank blank (List.mem_reverse.mp member)
  rw [List.reverse_append, List.reverse_cons, List.append_assoc,
    List.dropWhile_append_of_pos reversed, List.singleton_append,
    List.dropWhile_cons_of_neg (by simp [notBlank])]
  rfl

theorem unique (shownFirst : LastShown first text) (shownSecond : LastShown second text)
    (notBlankFirst : Text.isBlank first = false) (notBlankSecond : Text.isBlank second = false) :
    first = second :=
  Option.some.inj ((shownFirst.head?_dropWhile notBlankFirst).symm.trans
    (shownSecond.head?_dropWhile notBlankSecond))

/-- No run of digits and points goes on from there, if it is part of none itself. -/
theorem startsRun (shown : LastShown first text)
    (notNumeral : Literal.isNumeral first = false) : StartsRun text := by
  obtain ⟨front, blanks, rfl, areBlank⟩ := shown
  refine StartsRun.append (fun character isLast => ?_) (List.cons_ne_nil _ _) front
  obtain rfl | member := List.mem_cons.mp (List.mem_of_getLast? isLast)
  · exact notNumeral
  · exact isNumeral_of_isBlank (areBlank character member)

end LastShown

theorem SplitsUpTo.lastShown {before rest : List Char} {place mark : Nat}
    {front : List (Lexeme × Nat)} {lexeme : Lexeme} {symbol : Char}
    (upTo : SplitsUpTo rest place (before ++ rest) 0 (front ++ [(lexeme, mark)]))
    (written : lexeme.symbol? = some symbol) : LastShown symbol before := by
  obtain ⟨earlier, shown, behind, split, -, stands, -, later⟩ := upTo.exists_stands
  obtain ⟨blanks, rfl, areBlank⟩ := later.exists_blanks
  obtain rfl := stands.eq_symbol written
  refine ⟨earlier, blanks, ?_, areBlank⟩
  rw [← List.append_assoc, ← List.append_assoc, List.append_cancel_right_eq] at split
  rw [split, List.append_assoc]
  rfl

/-! ## Where lexemes stand -/

/-- The place behind a text is the length of its UTF-8 form. -/
theorem Text.byteLength_toList (source : String) :
    Text.byteLength source.toList = source.utf8ByteSize := by
  rw [← String.utf8Len_toList]
  induction source.toList with
  | nil => rfl
  | cons character rest ih =>
      rw [byteLength_cons, ih, String.utf8Len_cons, Nat.add_comm]

namespace Splits

variable {text : List Char} {position final : Nat} {lexemes : List (Lexeme × Nat)}

/-- A place goes before places that grow, if something that takes up bytes parts them. -/
theorem positions_cons {width : Nat} {places : List Nat} (takesUp : 0 < width)
    (increase : places.Pairwise (· < ·) ∧ ∀ place ∈ places, position + width ≤ place) :
    (position :: places).Pairwise (· < ·) ∧ ∀ place ∈ position :: places, position ≤ place := by
  have later : ∀ place ∈ places, position < place := fun place member =>
    (Nat.lt_add_of_pos_right takesUp).trans_le (increase.2 place member)
  exact ⟨List.pairwise_cons.mpr ⟨later, increase.1⟩,
    List.forall_mem_cons.mpr ⟨Nat.le_refl _, fun place member => (later place member).le⟩⟩

/-- The places of lexemes grow, and the end comes last. -/
theorem positions_increase (splits : Splits text position lexemes final) :
    (lexemes.map Prod.snd ++ [final]).Pairwise (· < ·) ∧
      ∀ place ∈ lexemes.map Prod.snd ++ [final], position ≤ place := by
  induction splits with
  | ended position =>
      exact ⟨List.pairwise_singleton _ _, List.forall_mem_singleton.mpr (Nat.le_refl _)⟩
  | blank character isBlank behind ih =>
      exact ⟨ih.1, fun place member => Nat.le_of_add_right_le (ih.2 place member)⟩
  | symbol character lexeme isSymbol behind ih =>
      exact positions_cons character.utf8Size_pos ih
  | number run value nonempty numerals maximal isLiteral behind ih =>
      obtain ⟨character, others, rfl⟩ := List.exists_cons_of_ne_nil nonempty
      exact positions_cons (Nat.add_pos_left character.utf8Size_pos _) ih

theorem stands (splits : Splits text 0 lexemes final) :
    ∀ lexeme place, (lexeme, place) ∈ lexemes →
      ∃ before shown behind, text = before ++ (shown ++ behind) ∧
        Lexeme.Stands before behind shown lexeme ∧ place = Text.byteLength before := by
  intro lexeme place member
  obtain ⟨front, back, rfl⟩ := List.append_of_mem member
  obtain ⟨before, shown, behind, split, placed, stands, -⟩ := splits.upTo.exists_stands
  exact ⟨before, shown, behind, split, stands, placed⟩

end Splits

end InfixArithmetic
