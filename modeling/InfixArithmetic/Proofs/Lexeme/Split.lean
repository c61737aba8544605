import InfixArithmetic.Lexeme.Split
import Mathlib.Data.List.TakeWhile

/-!
# The scan finds the split

A scan goes from character to character and looks ahead only for the end of a run.
What it finds is what `Splits` describes without it: the scan of a text is a chain
of placed lexemes up to the end exactly when the text splits into these lexemes
(`Splits.iff_scan`).  A scan is one value, so a text splits in at most one way.

A chain that stops at an error belongs to a faulty text in the same way
(`Faulty.iff_scan`), and every text is one or the other (`splits_or_faulty`).
-/

namespace InfixArithmetic

set_option autoImplicit false

/-! ## Kinds of characters -/

theorem isNumeral_of_isBlank {character : Char} (isBlank : Text.isBlank character = true) :
    Literal.isNumeral character = false := by
  simp only [Text.isBlank, Bool.or_eq_true, decide_eq_true_eq] at isBlank
  obtain (((rfl | rfl) | rfl) | rfl) | rfl := isBlank <;> decide

theorem isBlank_of_isNumeral {character : Char}
    (isNumeral : Literal.isNumeral character = true) : Text.isBlank character = false := by
  rw [← Bool.not_eq_true]
  intro isBlank
  rw [isNumeral_of_isBlank isBlank] at isNumeral
  cases isNumeral

theorem kind_of_symbol {character : Char} {lexeme : Lexeme}
    (isSymbol : Lexeme.ofSymbol? character = some lexeme) :
    Text.isBlank character = false ∧ Literal.isNumeral character = false := by
  unfold Lexeme.ofSymbol? at isSymbol
  split at isSymbol
  all_goals first | decide | cases isSymbol

/-! ## Runs -/

/-- A run that is as long as can be is what stands in front while characters are
numerals. -/
theorem takeWhile_run {run rest : List Char}
    (numerals : ∀ character ∈ run, Literal.isNumeral character = true) (maximal : EndsRun rest) :
    (run ++ rest).takeWhile Literal.isNumeral = run := by
  rw [List.takeWhile_append_of_pos numerals]
  cases rest with
  | nil => exact List.append_nil run
  | cons character others =>
      rw [List.takeWhile_cons_of_neg, List.append_nil]
      rw [maximal character rfl]
      exact Bool.false_ne_true

theorem dropWhile_run {run rest : List Char}
    (numerals : ∀ character ∈ run, Literal.isNumeral character = true) (maximal : EndsRun rest) :
    (run ++ rest).dropWhile Literal.isNumeral = rest := by
  rw [List.dropWhile_append_of_pos numerals]
  cases rest with
  | nil => rfl
  | cons character others =>
      rw [List.dropWhile_cons_of_neg]
      rw [maximal character rfl]
      exact Bool.false_ne_true

theorem endsRun_dropWhile (text : List Char) : EndsRun (text.dropWhile Literal.isNumeral) := by
  intro character isHead
  have stopped := List.head?_dropWhile_not Literal.isNumeral text
  rw [isHead] at stopped
  exact stopped

namespace Scan

/-! ## One link of a scan -/

theorem ofChars_nil (position : Nat) : ofChars [] position = .ended position := by
  rw [ofChars]

theorem ofChars_blank {character : Char} (isBlank : Text.isBlank character = true)
    (rest : List Char) (position : Nat) :
    ofChars (character :: rest) position = ofChars rest (position + character.utf8Size) := by
  rw [ofChars, if_pos isBlank]

theorem ofChars_symbol {character : Char} {lexeme : Lexeme}
    (isSymbol : Lexeme.ofSymbol? character = some lexeme) (rest : List Char) (position : Nat) :
    ofChars (character :: rest) position
      = .read lexeme position (ofChars rest (position + character.utf8Size)) := by
  obtain ⟨notBlank, notNumeral⟩ := kind_of_symbol isSymbol
  rw [ofChars]
  simp only [notBlank, notNumeral, isSymbol, Bool.false_eq_true, if_false]

theorem ofChars_number {run rest : List Char} {value : Float} (nonempty : run ≠ [])
    (numerals : ∀ character ∈ run, Literal.isNumeral character = true) (maximal : EndsRun rest)
    (isLiteral : Literal.read run = .ok value) (position : Nat) :
    ofChars (run ++ rest) position
      = .read (.number value) position (ofChars rest (position + Text.byteLength run)) := by
  cases run with
  | nil => exact absurd rfl nonempty
  | cons character others =>
      obtain ⟨isNumeral, othersNumerals⟩ := List.forall_mem_cons.mp numerals
      rw [List.cons_append, ofChars, if_neg (by simp [isBlank_of_isNumeral isNumeral]),
        if_pos isNumeral]
      simp only [takeWhile_run othersNumerals maximal, dropWhile_run othersNumerals maximal,
        isLiteral]

/-! ## Chains -/

/-- Lexemes in front of a scan. -/
def chain : List (Lexeme × Nat) → Scan → Scan
  | [], scan => scan
  | (lexeme, position) :: rest, scan => .read lexeme position (chain rest scan)

/-- Every scan is a chain of lexemes up to the end or up to an error. -/
theorem exists_chain (scan : Scan) :
    ∃ lexemes, (∃ final, scan = chain lexemes (.ended final)) ∨
      ∃ error, scan = chain lexemes (.refused error) := by
  induction scan with
  | read lexeme position rest ih =>
      obtain ⟨lexemes, ⟨final, rfl⟩ | ⟨error, rfl⟩⟩ := ih
      · exact ⟨(lexeme, position) :: lexemes, .inl ⟨final, rfl⟩⟩
      · exact ⟨(lexeme, position) :: lexemes, .inr ⟨error, rfl⟩⟩
  | refused error => exact ⟨[], .inr ⟨error, rfl⟩⟩
  | ended final => exact ⟨[], .inl ⟨final, rfl⟩⟩

/-- A chain that starts with a lexeme and stops behind it starts there with its first
link. -/
theorem exists_of_read_eq_chain {ending rest : Scan} {lexeme : Lexeme} {position : Nat}
    {lexemes : List (Lexeme × Nat)} (same : .read lexeme position rest = chain lexemes ending)
    (stops : ∀ found place behind, ending ≠ .read found place behind) :
    ∃ others, lexemes = (lexeme, position) :: others ∧ rest = chain others ending := by
  cases lexemes with
  | nil => exact absurd same.symm (stops _ _ _)
  | cons placed others =>
      obtain ⟨found, place⟩ := placed
      simp only [chain, Scan.read.injEq] at same
      obtain ⟨rfl, rfl, behind⟩ := same
      exact ⟨others, rfl, behind⟩

theorem chain_ended_injective {first second : List (Lexeme × Nat)} {final last : Nat}
    (same : chain first (.ended final) = chain second (.ended last)) :
    first = second ∧ final = last := by
  induction first generalizing second with
  | nil =>
      cases second with
      | nil =>
          cases same
          exact ⟨rfl, rfl⟩
      | cons placed rest => cases same
  | cons placed rest ih =>
      cases second with
      | nil => cases same
      | cons other others =>
          simp only [chain, Scan.read.injEq] at same
          obtain ⟨sameLexeme, samePosition, sameRest⟩ := same
          obtain ⟨rfl, rfl⟩ := ih sameRest
          exact ⟨congrArg (· :: rest) (Prod.ext sameLexeme samePosition), rfl⟩

end Scan

/-! ## Splits and scans -/

/-- A split is found by the scan. -/
theorem Splits.scan_eq {text : List Char} {position final : Nat}
    {lexemes : List (Lexeme × Nat)} (splits : Splits text position lexemes final) :
    Scan.ofChars text position = Scan.chain lexemes (.ended final) := by
  induction splits with
  | ended position => exact Scan.ofChars_nil position
  | blank character isBlank behind ih => rw [Scan.ofChars_blank isBlank, ih]
  | symbol character lexeme isSymbol behind ih => rw [Scan.ofChars_symbol isSymbol, ih, Scan.chain]
  | number run value nonempty numerals maximal isLiteral behind ih =>
      rw [Scan.ofChars_number nonempty numerals maximal isLiteral, ih, Scan.chain]

/-- What the scan finds is a split. -/
theorem Splits.of_scan_eq {text : List Char} {position final : Nat}
    {lexemes : List (Lexeme × Nat)}
    (scanned : Scan.ofChars text position = Scan.chain lexemes (.ended final)) :
    Splits text position lexemes final := by
  fun_induction Scan.ofChars text position generalizing lexemes with
  | case1 position =>
      cases lexemes with
      | nil =>
          cases scanned
          exact .ended _
      | cons placed rest => cases scanned
  | case2 character rest position isBlank ih => exact .blank character isBlank (ih scanned)
  | case3 character rest position notBlank isNumeral run value isLiteral =>
      rename_i ih
      obtain ⟨others, rfl, behind⟩ := Scan.exists_of_read_eq_chain scanned nofun
      have numerals : ∀ numeral ∈ run, Literal.isNumeral numeral = true :=
        List.forall_mem_cons.mpr ⟨isNumeral, fun numeral member => List.mem_takeWhile_imp member⟩
      have split := Splits.number run value (List.cons_ne_nil _ _) numerals
        (endsRun_dropWhile rest) isLiteral (ih behind)
      rwa [List.cons_append, List.takeWhile_append_dropWhile] at split
  | case4 character rest position notBlank isNumeral run fault =>
      cases lexemes <;> cases scanned
  | case5 character rest position notBlank notNumeral lexeme isSymbol ih =>
      obtain ⟨others, rfl, behind⟩ := Scan.exists_of_read_eq_chain scanned nofun
      exact .symbol character lexeme isSymbol (ih behind)
  | case6 character rest position notBlank notNumeral notSymbol =>
      cases lexemes <;> cases scanned

/-- **The scan finds exactly the splits of a text.** -/
theorem Splits.iff_scan {text : List Char} {position final : Nat}
    {lexemes : List (Lexeme × Nat)} :
    Splits text position lexemes final ↔
      Scan.ofChars text position = Scan.chain lexemes (.ended final) :=
  ⟨Splits.scan_eq, Splits.of_scan_eq⟩

/-- **A text splits in at most one way.** -/
theorem Splits.unique {text : List Char} {position final last : Nat}
    {first second : List (Lexeme × Nat)} (splitsFirst : Splits text position first final)
    (splitsSecond : Splits text position second last) : first = second ∧ final = last :=
  Scan.chain_ended_injective (splitsFirst.scan_eq.symm.trans splitsSecond.scan_eq)

theorem Splits.final_eq {text : List Char} {position final : Nat} {lexemes : List (Lexeme × Nat)}
    (splits : Splits text position lexemes final) :
    final = position + Text.byteLength text := by
  induction splits with
  | ended position => rfl
  | blank character isBlank behind ih | symbol character lexeme isSymbol behind ih =>
      rw [ih, Text.byteLength_cons, Nat.add_assoc]
  | number run value nonempty numerals maximal isLiteral behind ih =>
      rw [ih, Text.byteLength_append, Nat.add_assoc]

/-! ## Faulty texts and scans -/

/-- The scan of a faulty text stops at its error. -/
theorem Faulty.scan_eq {text : List Char} {position : Nat} {lexemes : List (Lexeme × Nat)}
    {error : ScanError} (faulty : Faulty text position lexemes error) :
    Scan.ofChars text position = Scan.chain lexemes (.refused error) := by
  induction faulty with
  | character character notBlank notNumeral notSymbol =>
      rw [Scan.ofChars, notBlank, notNumeral, notSymbol]
      rfl
  | run run fault nonempty numerals maximal isFaulty =>
      cases run with
      | nil => exact absurd rfl nonempty
      | cons character others =>
          obtain ⟨isNumeral, othersNumerals⟩ := List.forall_mem_cons.mp numerals
          rw [List.cons_append, Scan.ofChars, isBlank_of_isNumeral isNumeral, isNumeral]
          simp only [takeWhile_run othersNumerals maximal, isFaulty]
          rfl
  | blank character isBlank behind ih => rw [Scan.ofChars_blank isBlank, ih]
  | symbol character lexeme isSymbol behind ih => rw [Scan.ofChars_symbol isSymbol, ih, Scan.chain]
  | number run value nonempty numerals maximal isLiteral behind ih =>
      rw [Scan.ofChars_number nonempty numerals maximal isLiteral, ih, Scan.chain]

theorem Faulty.of_scan_eq {text : List Char} {position : Nat} {lexemes : List (Lexeme × Nat)}
    {error : ScanError}
    (scanned : Scan.ofChars text position = Scan.chain lexemes (.refused error)) :
    Faulty text position lexemes error := by
  fun_induction Scan.ofChars text position generalizing lexemes with
  | case1 position => cases lexemes <;> cases scanned
  | case2 character rest position isBlank ih => exact .blank character isBlank (ih scanned)
  | case3 character rest position notBlank isNumeral run value isLiteral =>
      rename_i ih
      obtain ⟨others, rfl, behind⟩ := Scan.exists_of_read_eq_chain scanned nofun
      have numerals : ∀ numeral ∈ run, Literal.isNumeral numeral = true :=
        List.forall_mem_cons.mpr ⟨isNumeral, fun numeral member => List.mem_takeWhile_imp member⟩
      have faulty := Faulty.number run value (List.cons_ne_nil _ _) numerals
        (endsRun_dropWhile rest) isLiteral (ih behind)
      rwa [List.cons_append, List.takeWhile_append_dropWhile] at faulty
  | case4 character rest position notBlank isNumeral run fault =>
      rename_i isFaulty
      cases lexemes with
      | cons placed others => cases scanned
      | nil =>
          cases scanned
          have numerals : ∀ numeral ∈ run, Literal.isNumeral numeral = true :=
            List.forall_mem_cons.mpr
              ⟨isNumeral, fun numeral member => List.mem_takeWhile_imp member⟩
          have faulty : Faulty (run ++ rest.dropWhile Literal.isNumeral) position []
              (Scan.numeralError run position fault) :=
            .run run fault (List.cons_ne_nil _ _) numerals (endsRun_dropWhile rest) isFaulty
          rwa [List.cons_append, List.takeWhile_append_dropWhile] at faulty
  | case5 character rest position notBlank notNumeral lexeme isSymbol ih =>
      obtain ⟨others, rfl, behind⟩ := Scan.exists_of_read_eq_chain scanned nofun
      exact .symbol character lexeme isSymbol (ih behind)
  | case6 character rest position notBlank notNumeral notSymbol =>
      cases lexemes with
      | cons placed others => cases scanned
      | nil =>
          cases scanned
          exact .character character (Bool.eq_false_iff.mpr notBlank)
            (Bool.eq_false_iff.mpr notNumeral) notSymbol

/-- **The scan finds exactly where a text is faulty.** -/
theorem Faulty.iff_scan {text : List Char} {position : Nat} {lexemes : List (Lexeme × Nat)}
    {error : ScanError} :
    Faulty text position lexemes error ↔
      Scan.ofChars text position = Scan.chain lexemes (.refused error) :=
  ⟨Faulty.scan_eq, Faulty.of_scan_eq⟩

/-- **Every text splits or is faulty.** -/
theorem splits_or_faulty (text : List Char) (position : Nat) :
    ∃ lexemes, (∃ final, Splits text position lexemes final) ∨
      ∃ error, Faulty text position lexemes error := by
  obtain ⟨lexemes, ⟨final, scanned⟩ | ⟨error, scanned⟩⟩ :=
    Scan.exists_chain (Scan.ofChars text position)
  · exact ⟨lexemes, .inl ⟨final, .of_scan_eq scanned⟩⟩
  · exact ⟨lexemes, .inr ⟨error, .of_scan_eq scanned⟩⟩

end InfixArithmetic
