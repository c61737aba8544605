import InfixArithmetic.Proofs.Lexeme.Flaw

/-!
# Splitting a text up to a place

A text can be split into lexemes up to a place in it and left alone from there on.
`SplitsUpTo` says so, given the rest of the text at the place.  A text that splits does so
up to its end (`Splits.upTo`) and a faulty text up to its flaw (`Faulty.exists_upTo`), and
back from there a split or a fault of the rest is one of the whole text
(`SplitsUpTo.splits` and `SplitsUpTo.faulty`).

A reading never looks ahead but for the end of a run.  So more text can be put behind a
text, and it splits up to the same place, as long as no run of digits and points goes on
from the one to the other (`SplitsUpTo.append`, and `Faulty.append` for faulty texts).
-/

namespace InfixArithmetic

set_option autoImplicit false

/-- A text that starts at a position is a sequence of placed lexemes up to a rest that
starts at another place. -/
inductive SplitsUpTo (rest : List Char) (place : Nat) :
    List Char → Nat → List (Lexeme × Nat) → Prop where
  | here : SplitsUpTo rest place rest place []
  | blank {text : List Char} {lexemes : List (Lexeme × Nat)} {position : Nat}
      (character : Char) (isBlank : Text.isBlank character = true)
      (behind : SplitsUpTo rest place text (position + character.utf8Size) lexemes) :
    SplitsUpTo rest place (character :: text) position lexemes
  | symbol {text : List Char} {lexemes : List (Lexeme × Nat)} {position : Nat}
      (character : Char) (lexeme : Lexeme) (isSymbol : Lexeme.ofSymbol? character = some lexeme)
      (behind : SplitsUpTo rest place text (position + character.utf8Size) lexemes) :
    SplitsUpTo rest place (character :: text) position ((lexeme, position) :: lexemes)
  | number {text : List Char} {lexemes : List (Lexeme × Nat)} {position : Nat}
      (run : List Char) (value : Float) (nonempty : run ≠ [])
      (numerals : ∀ character ∈ run, Literal.isNumeral character = true)
      (maximal : EndsRun text) (isLiteral : Literal.read run = .ok value)
      (behind : SplitsUpTo rest place text (position + Text.byteLength run) lexemes) :
    SplitsUpTo rest place (run ++ text) position ((.number value, position) :: lexemes)

/-! ## Whole texts -/

theorem Splits.upTo {text : List Char} {position final : Nat} {lexemes : List (Lexeme × Nat)}
    (splits : Splits text position lexemes final) : SplitsUpTo [] final text position lexemes := by
  induction splits with
  | ended position => exact .here
  | blank character isBlank behind ih => exact .blank character isBlank ih
  | symbol character lexeme isSymbol behind ih => exact .symbol character lexeme isSymbol ih
  | number run value nonempty numerals maximal isLiteral behind ih =>
      exact .number run value nonempty numerals maximal isLiteral ih

theorem Faulty.exists_upTo {text : List Char} {position : Nat} {lexemes : List (Lexeme × Nat)}
    {error : ScanError} (faulty : Faulty text position lexemes error) :
    ∃ rest place, SplitsUpTo rest place text position lexemes ∧ Faulty rest place [] error := by
  induction faulty with
  | character character notBlank notNumeral notSymbol =>
      exact ⟨_, _, .here, .character character notBlank notNumeral notSymbol⟩
  | run run fault nonempty numerals maximal isFaulty =>
      exact ⟨_, _, .here, .run run fault nonempty numerals maximal isFaulty⟩
  | blank character isBlank behind ih =>
      obtain ⟨rest, place, upTo, atFault⟩ := ih
      exact ⟨rest, place, .blank character isBlank upTo, atFault⟩
  | symbol character lexeme isSymbol behind ih =>
      obtain ⟨rest, place, upTo, atFault⟩ := ih
      exact ⟨rest, place, .symbol character lexeme isSymbol upTo, atFault⟩
  | number run value nonempty numerals maximal isLiteral behind ih =>
      obtain ⟨rest, place, upTo, atFault⟩ := ih
      exact ⟨rest, place, .number run value nonempty numerals maximal isLiteral upTo, atFault⟩

theorem StartsRun.append {back : List Char} (starts : StartsRun back) (nonempty : back ≠ [])
    (front : List Char) : StartsRun (front ++ back) := by
  intro character isLast
  rw [List.getLast?_append, List.getLast?_eq_some_getLast nonempty] at isLast
  exact starts character (List.getLast?_eq_some_getLast nonempty ▸ isLast)

theorem StartsRun.cons {text : List Char} {character : Char} (starts : StartsRun text)
    (notNumeral : Literal.isNumeral character = false) : StartsRun (character :: text) := by
  cases text with
  | nil =>
      have single : StartsRun ([] ++ [character]) := startsRun_concat.mpr notNumeral
      exact single
  | cons first others => exact starts.append nofun [character]

namespace SplitsUpTo

variable {text rest : List Char} {position place : Nat} {lexemes others : List (Lexeme × Nat)}

/-- A text that splits up to a rest is read as its lexemes and then as the rest. -/
theorem scan_eq (upTo : SplitsUpTo rest place text position lexemes) :
    Scan.ofChars text position = Scan.chain lexemes (Scan.ofChars rest place) := by
  induction upTo with
  | here => rfl
  | blank character isBlank behind ih => rw [Scan.ofChars_blank isBlank, ih]
  | symbol character lexeme isSymbol behind ih => rw [Scan.ofChars_symbol isSymbol, ih, Scan.chain]
  | number run value nonempty numerals maximal isLiteral behind ih =>
      rw [Scan.ofChars_number nonempty numerals maximal isLiteral, ih, Scan.chain]

theorem splits (upTo : SplitsUpTo rest place text position lexemes) {final : Nat}
    (behind : Splits rest place others final) :
    Splits text position (lexemes ++ others) final := by
  induction upTo with
  | here => exact behind
  | blank character isBlank _ ih => exact .blank character isBlank ih
  | symbol character lexeme isSymbol _ ih => exact .symbol character lexeme isSymbol ih
  | number run value nonempty numerals maximal isLiteral _ ih =>
      exact .number run value nonempty numerals maximal isLiteral ih

theorem faulty (upTo : SplitsUpTo rest place text position lexemes) {error : ScanError}
    (behind : Faulty rest place others error) :
    Faulty text position (lexemes ++ others) error := by
  induction upTo with
  | here => exact behind
  | blank character isBlank _ ih => exact .blank character isBlank ih
  | symbol character lexeme isSymbol _ ih => exact .symbol character lexeme isSymbol ih
  | number run value nonempty numerals maximal isLiteral _ ih =>
      exact .number run value nonempty numerals maximal isLiteral ih

/-- What is before the rest splits by itself, and no run goes on from there to the rest. -/
theorem exists_splits (upTo : SplitsUpTo rest place text position lexemes) :
    ∃ before, text = before ++ rest ∧ Splits before position lexemes place ∧
      (StartsRun before ∨ EndsRun rest) := by
  induction upTo with
  | here => exact ⟨[], rfl, .ended place, .inl startsRun_nil⟩
  | blank character isBlank _ ih =>
      obtain ⟨before, rfl, splits, parted⟩ := ih
      refine ⟨character :: before, rfl, .blank character isBlank splits, ?_⟩
      exact parted.imp_left fun starts => starts.cons (isNumeral_of_isBlank isBlank)
  | symbol character lexeme isSymbol _ ih =>
      obtain ⟨before, rfl, splits, parted⟩ := ih
      refine ⟨character :: before, rfl, .symbol character lexeme isSymbol splits, ?_⟩
      exact parted.imp_left fun starts => starts.cons (kind_of_symbol isSymbol).2
  | number run value nonempty numerals maximal isLiteral _ ih =>
      obtain ⟨before, rfl, splits, parted⟩ := ih
      cases before with
      | nil =>
          refine ⟨run ++ [], by simp, ?_, .inr maximal⟩
          exact .number run value nonempty numerals nofun isLiteral splits
      | cons first before =>
          have ends : EndsRun (first :: before) := endsRun_cons.mpr (endsRun_cons.mp maximal)
          refine ⟨run ++ first :: before, (List.append_assoc ..).symm,
            .number run value nonempty numerals ends isLiteral splits, ?_⟩
          exact parted.imp_left fun starts => starts.append nofun run

/-- It takes up the bytes up to the place. -/
theorem exists_before (upTo : SplitsUpTo rest place text position lexemes) :
    ∃ before, text = before ++ rest ∧ place = position + Text.byteLength before ∧
      (StartsRun before ∨ EndsRun rest) := by
  obtain ⟨before, split, splits, parted⟩ := upTo.exists_splits
  exact ⟨before, split, splits.final_eq, parted⟩

end SplitsUpTo

/-! ## More text behind -/

/-- Behind a run that is at its end, a text ends the run or there is none. -/
theorem EndsRun.append {front back : List Char} (ends : EndsRun front)
    (parted : front = [] → EndsRun back) : EndsRun (front ++ back) := by
  cases front with
  | nil => exact parted rfl
  | cons character others => exact endsRun_cons.mpr (endsRun_cons.mp ends)

theorem StartsRun.of_append {front back : List Char} (starts : StartsRun (front ++ back)) :
    StartsRun back := by
  intro character isLast
  refine starts character ?_
  rw [List.getLast?_append, Option.mem_def.mp isLast]
  rfl

/-- A run at the end of a text is a part of any run that goes on from there. -/
theorem endsRun_of_parted {run more : List Char} (nonempty : run ≠ [])
    (numerals : ∀ character ∈ run, Literal.isNumeral character = true)
    (parted : StartsRun run ∨ EndsRun more) : EndsRun more := by
  refine parted.resolve_left fun starts => ?_
  have last := starts (run.getLast nonempty) (List.getLast?_eq_some_getLast nonempty)
  rw [numerals _ (List.getLast_mem nonempty)] at last
  cases last

/-- No run goes on from the end of a text if none goes on from the whole text. -/
theorem parted_of_append (front : List Char) {back more : List Char}
    (parted : StartsRun (front ++ back) ∨ EndsRun more) : StartsRun back ∨ EndsRun more :=
  parted.imp_left StartsRun.of_append

/-- **More text behind changes nothing before it**, if no run of digits and points goes on
from the one to the other. -/
theorem SplitsUpTo.append {text rest more : List Char} {position place : Nat}
    {lexemes : List (Lexeme × Nat)} (upTo : SplitsUpTo rest place text position lexemes)
    (parted : StartsRun text ∨ EndsRun more) :
    SplitsUpTo (rest ++ more) place (text ++ more) position lexemes := by
  induction upTo with
  | here => exact .here
  | @blank text _ _ character isBlank _ ih =>
      exact .blank character isBlank (ih (parted_of_append [character] parted))
  | @symbol text _ _ character lexeme isSymbol _ ih =>
      exact .symbol character lexeme isSymbol (ih (parted_of_append [character] parted))
  | @number text _ _ run value nonempty numerals maximal isLiteral _ ih =>
      rw [List.append_assoc]
      refine .number run value nonempty numerals (maximal.append ?_) isLiteral
        (ih (parted_of_append run parted))
      rintro rfl
      rw [List.append_nil] at parted
      exact endsRun_of_parted nonempty numerals parted

/-- A text that is at fault where it starts is so with more text behind it. -/
theorem Faulty.append_here {text more : List Char} {position : Nat} {error : ScanError}
    (faulty : Faulty text position [] error) (parted : StartsRun text ∨ EndsRun more) :
    Faulty (text ++ more) position [] error := by
  generalize none : ([] : List (Lexeme × Nat)) = lexemes at faulty
  induction faulty with
  | character character notBlank notNumeral notSymbol =>
      exact .character character notBlank notNumeral notSymbol
  | @run rest _ run fault nonempty numerals maximal isFaulty =>
      rw [List.append_assoc]
      refine .run run fault nonempty numerals (maximal.append ?_) isFaulty
      rintro rfl
      rw [List.append_nil] at parted
      exact endsRun_of_parted nonempty numerals parted
  | blank character isBlank behind ih =>
      exact .blank character isBlank (ih (parted_of_append [character] parted) none)
  | symbol | number => cases none

/-- **A faulty text stays faulty with more text behind it**, if no run of digits and points
goes on from the one to the other. -/
theorem Faulty.append {text more : List Char} {position : Nat} {lexemes : List (Lexeme × Nat)}
    {error : ScanError} (faulty : Faulty text position lexemes error)
    (parted : StartsRun text ∨ EndsRun more) : Faulty (text ++ more) position lexemes error := by
  obtain ⟨rest, place, upTo, atFault⟩ := faulty.exists_upTo
  obtain ⟨before, rfl, -, -⟩ := upTo.exists_before
  have behind := atFault.append_here (parted_of_append before parted)
  have whole := (upTo.append parted).faulty behind
  rwa [List.append_nil] at whole

end InfixArithmetic
