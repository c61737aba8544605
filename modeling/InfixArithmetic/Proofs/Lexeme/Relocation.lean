import InfixArithmetic.Proofs.Lexeme.UpTo

/-!
# Texts that start elsewhere

A reading carries places along and never looks at them.  So a text that starts later is read
in the same way, and all its places are later by as much (`Scan.ofChars_relocate`), and the
lexemes before some place in it stand before that place (`SplitsUpTo.lt_place`).

What is put into a text moves the places from there on and leaves those before it alone
(`shiftFrom`).  Blanks in front of a text do just that (`Scan.ofChars_blanks`).
-/

namespace InfixArithmetic

set_option autoImplicit false

/-! ## Moving places -/

/-- Where a place goes if some bytes are put in at another place. -/
def shiftFrom (place width position : Nat) : Nat :=
  if position < place then position else position + width

section Shift

variable {place position : Nat} (width : Nat)

theorem shiftFrom_of_lt (before : position < place) : shiftFrom place width position = position :=
  if_pos before

theorem shiftFrom_of_le (behind : place ≤ position) :
    shiftFrom place width position = position + width :=
  if_neg (Nat.not_lt.mpr behind)

end Shift

variable (move : Nat → Nat)

/-- The same thing in another place. -/
def relocatePlaced {α : Type} (placed : α × Nat) : α × Nat :=
  (placed.1, move placed.2)

/-- The same error in another place. -/
def ScanError.relocate : ScanError → ScanError
  | .unexpectedCharacter character position => .unexpectedCharacter character (move position)
  | .malformedNumber literal position => .malformedNumber literal (move position)
  | .literalTooLarge position => .literalTooLarge (move position)

@[simp] theorem ScanError.position_relocate (error : ScanError) :
    (error.relocate move).position = move error.position := by
  cases error <;> rfl

section Fixed

variable {move}

theorem map_relocatePlaced_of_fixed {α : Type} {list : List (α × Nat)}
    (fixed : ∀ placed ∈ list, move placed.2 = placed.2) :
    list.map (relocatePlaced move) = list := by
  induction list with
  | nil => rfl
  | cons placed rest ih =>
      obtain ⟨first, others⟩ := List.forall_mem_cons.mp fixed
      rw [List.map_cons, ih others]
      exact congrArg (fun place => (placed.1, place) :: rest) first

theorem map_shiftFrom_of_lt {α : Type} {list : List (α × Nat)} {place : Nat} (width : Nat)
    (before : ∀ placed ∈ list, placed.2 < place) :
    list.map (relocatePlaced (shiftFrom place width)) = list :=
  map_relocatePlaced_of_fixed fun placed member => shiftFrom_of_lt width (before placed member)

theorem map_shiftFrom_of_le {α : Type} {list : List (α × Nat)} {place : Nat} (width : Nat)
    (behind : ∀ placed ∈ list, place ≤ placed.2) :
    list.map (relocatePlaced (shiftFrom place width))
      = list.map (relocatePlaced (· + width)) :=
  List.map_congr_left fun placed member =>
    congrArg (Prod.mk placed.1) (shiftFrom_of_le width (behind placed member))

theorem ScanError.relocate_of_fixed {error : ScanError}
    (fixed : move error.position = error.position) : error.relocate move = error := by
  cases error with
  | unexpectedCharacter character position =>
      exact congrArg (ScanError.unexpectedCharacter character) fixed
  | malformedNumber literal position => exact congrArg (ScanError.malformedNumber literal) fixed
  | literalTooLarge position => exact congrArg ScanError.literalTooLarge fixed

theorem ScanError.relocate_relocate_of_inverse {back : Nat → Nat} {error : ScanError}
    (inverse : back (move error.position) = error.position) :
    (error.relocate move).relocate back = error := by
  cases error with
  | unexpectedCharacter character position =>
      exact congrArg (ScanError.unexpectedCharacter character) inverse
  | malformedNumber literal position => exact congrArg (ScanError.malformedNumber literal) inverse
  | literalTooLarge position => exact congrArg ScanError.literalTooLarge inverse

end Fixed

/-! ## Readings in other places -/

namespace Scan

/-- The same reading in other places. -/
def relocate : Scan → Scan
  | .read lexeme position rest => .read lexeme (move position) rest.relocate
  | .refused error => .refused (error.relocate move)
  | .ended position => .ended (move position)

theorem chain_relocate (lexemes : List (Lexeme × Nat)) (scan : Scan) :
    (chain lexemes scan).relocate move
      = chain (lexemes.map (relocatePlaced move)) (scan.relocate move) := by
  induction lexemes with
  | nil => rfl
  | cons placed rest ih =>
      rw [List.map_cons]
      exact congrArg (Scan.read placed.1 (move placed.2)) ih

variable {move}

/-- **A text that starts later is read as it would be earlier**, and its places are as much
later. -/
theorem ofChars_relocate {text : List Char} {position width : Nat}
    (moves : ∀ place, position ≤ place → move place = place + width) :
    ofChars text (position + width) = (ofChars text position).relocate move := by
  fun_induction ofChars text position with
  | case1 position =>
      rw [ofChars_nil, relocate, moves position (Nat.le_refl _)]
  | case2 character rest position isBlank ih =>
      rw [ofChars_blank isBlank, Nat.add_right_comm]
      exact ih fun place behind => moves place (Nat.le_of_add_right_le behind)
  | case3 character rest position notBlank isNumeral run value isLiteral ih =>
      rw [ofChars, if_neg notBlank, if_pos isNumeral]
      simp only [run] at isLiteral
      simp only [isLiteral, relocate, moves position (Nat.le_refl _)]
      rw [Nat.add_right_comm]
      exact congrArg _ (ih fun place behind => moves place (Nat.le_of_add_right_le behind))
  | case4 character rest position notBlank isNumeral run fault isFaulty =>
      rw [ofChars, if_neg notBlank, if_pos isNumeral]
      simp only [run] at isFaulty
      simp only [isFaulty, relocate]
      rw [← moves position (Nat.le_refl _)]
      cases fault <;> rfl
  | case5 character rest position notBlank notNumeral lexeme isSymbol ih =>
      rw [ofChars_symbol isSymbol, Nat.add_right_comm, relocate, moves position (Nat.le_refl _)]
      exact congrArg _ (ih fun place behind => moves place (Nat.le_of_add_right_le behind))
  | case6 character rest position notBlank notNumeral notSymbol =>
      rw [ofChars, if_neg notBlank, if_neg notNumeral, notSymbol,
        ← moves position (Nat.le_refl _)]
      rfl

/-- Blanks in front of a text only have it start later. -/
theorem ofChars_blanks {blanks : List Char}
    (areBlank : ∀ blank ∈ blanks, Text.isBlank blank = true) (rest : List Char) (position : Nat) :
    ofChars (blanks ++ rest) position = ofChars rest (position + Text.byteLength blanks) := by
  induction blanks generalizing position with
  | nil => rfl
  | cons character others ih =>
      obtain ⟨isBlank, othersBlank⟩ := List.forall_mem_cons.mp areBlank
      rw [List.cons_append, ofChars_blank isBlank, ih othersBlank, Text.byteLength_cons,
        Nat.add_assoc]

end Scan

/-! ## Places before a rest -/

theorem SplitsUpTo.le_place {text rest : List Char} {position place : Nat}
    {lexemes : List (Lexeme × Nat)} (upTo : SplitsUpTo rest place text position lexemes) :
    position ≤ place := by
  obtain ⟨before, -, rfl, -⟩ := upTo.exists_before
  exact Nat.le_add_right _ _

/-- **The lexemes before a rest stand before its place.** -/
theorem SplitsUpTo.lt_place {text rest : List Char} {position place : Nat}
    {lexemes : List (Lexeme × Nat)} (upTo : SplitsUpTo rest place text position lexemes) :
    ∀ placed ∈ lexemes, placed.2 < place := by
  induction upTo with
  | here => exact List.forall_mem_nil _
  | blank character isBlank behind ih => exact ih
  | symbol character lexeme isSymbol behind ih =>
      refine List.forall_mem_cons.mpr ⟨?_, ih⟩
      exact (Nat.lt_add_of_pos_right character.utf8Size_pos).trans_le behind.le_place
  | number run value nonempty numerals maximal isLiteral behind ih =>
      refine List.forall_mem_cons.mpr ⟨?_, ih⟩
      obtain ⟨character, others, rfl⟩ := List.exists_cons_of_ne_nil nonempty
      exact (Nat.lt_add_of_pos_right (Nat.add_pos_left character.utf8Size_pos _)).trans_le
        behind.le_place

/-- Where a text is at fault when it starts, more of it is left. -/
theorem Faulty.le_position {text : List Char} {position : Nat} {error : ScanError}
    (faulty : Faulty text position [] error) :
    position ≤ error.position ∧ error.position < position + Text.byteLength text := by
  generalize none : ([] : List (Lexeme × Nat)) = lexemes at faulty
  induction faulty with
  | character character notBlank notNumeral notSymbol =>
      exact ⟨Nat.le_refl _, Nat.lt_add_of_pos_right (Nat.add_pos_left character.utf8Size_pos _)⟩
  | run run fault nonempty numerals maximal isFaulty =>
      obtain ⟨character, others, rfl⟩ := List.exists_cons_of_ne_nil nonempty
      have takesUp := Nat.add_pos_left character.utf8Size_pos
      cases fault <;> exact ⟨Nat.le_refl _, Nat.lt_add_of_pos_right (takesUp _)⟩
  | blank character isBlank behind ih =>
      obtain ⟨atLeast, atMost⟩ := ih none
      rw [Nat.add_assoc] at atMost
      exact ⟨Nat.le_of_add_right_le atLeast, atMost⟩
  | symbol | number => cases none

/-- **A faulty text has its error and the lexemes before it inside.** -/
theorem Faulty.lt_length {text : List Char} {position : Nat} {lexemes : List (Lexeme × Nat)}
    {error : ScanError} (faulty : Faulty text position lexemes error) :
    error.position < position + Text.byteLength text ∧
      ∀ placed ∈ lexemes, placed.2 < position + Text.byteLength text := by
  obtain ⟨rest, place, upTo, atFault⟩ := faulty.exists_upTo
  obtain ⟨before, rfl, rfl, -⟩ := upTo.exists_before
  obtain ⟨atLeast, atMost⟩ := atFault.le_position
  rw [Text.byteLength_append, ← Nat.add_assoc]
  exact ⟨atMost, fun placed member => (upTo.lt_place placed member).trans
    (atLeast.trans_lt atMost)⟩

end InfixArithmetic
