import InfixArithmetic.Proofs.Lexeme.UpTo

/-!
# Parentheses of a text

Which parentheses of a text belong together can be told by counting.  A closing one is
without a partner when it is the first at which more are closed than opened, and an opening
one when nothing behind it closes more than it opens, `StaysOpen`.  Of the opening ones
without a partner the last is the one behind which just as many are closed as opened
(`length_le_of_staysOpen`).

Blanks, numbers and operators do not matter for that, so the parentheses of a text are those
of its lexemes (`SplitsUpTo.filter_isParenthesis`).
-/

namespace InfixArithmetic

set_option autoImplicit false

/-- Whether a character is a parenthesis. -/
def isParenthesis (character : Char) : Bool :=
  character = '(' || character = ')'

/-- The parenthesis that a lexeme is, if it is one. -/
def Lexeme.parenthesis? : Lexeme → Option Char
  | .opening => some '('
  | .closing => some ')'
  | .number _ | .plus | .minus | .star | .slash | .percent => none

/-- The parentheses among placed lexemes. -/
def lexemeParentheses (lexemes : List (Lexeme × Nat)) : List Char :=
  lexemes.filterMap fun placed => placed.1.parenthesis?

theorem lexemeParentheses_cons (lexeme : Lexeme) (position : Nat) (rest : List (Lexeme × Nat)) :
    lexemeParentheses ((lexeme, position) :: rest)
      = lexeme.parenthesis?.toList ++ lexemeParentheses rest := by
  cases lexeme <;> rfl

/-- Whether nowhere in a text more parentheses are closed than opened. -/
def StaysOpen (text : List Char) : Prop :=
  ∀ part, part <+: text → part.count ')' ≤ part.count '('

/-- A text in which nowhere more is closed than opened, and so many groups are left open at
its end. -/
structure LeavesOpen (text : List Char) (depth : Nat) : Prop where
  staysOpen : StaysOpen text
  count_eq : text.count '(' = text.count ')' + depth

/-! ## Counting -/

theorem StaysOpen.concat {text : List Char} {character : Char} (opens : StaysOpen text)
    (more : (text ++ [character]).count ')' ≤ (text ++ [character]).count '(') :
    StaysOpen (text ++ [character]) := by
  intro part isPrefix
  obtain rfl | shorter := List.prefix_concat_iff.mp isPrefix
  · exact more
  · exact opens part shorter

namespace LeavesOpen

variable {text : List Char} {depth : Nat}

theorem nil : LeavesOpen [] 0 := by
  refine ⟨fun part isPrefix => ?_, rfl⟩
  rw [List.prefix_nil.mp isPrefix]
  exact Nat.le_refl _

theorem opening (leaves : LeavesOpen text depth) : LeavesOpen (text ++ ['(']) (depth + 1) := by
  have counts : (text ++ ['(']).count '(' = (text ++ ['(']).count ')' + (depth + 1) := by
    simp [leaves.count_eq, Nat.add_assoc]
  exact ⟨leaves.staysOpen.concat (counts ▸ Nat.le_add_right _ _), counts⟩

theorem closing (leaves : LeavesOpen text (depth + 1)) : LeavesOpen (text ++ [')']) depth := by
  have counts : (text ++ [')']).count '(' = (text ++ [')']).count ')' + depth := by
    simp [leaves.count_eq]
    omega
  exact ⟨leaves.staysOpen.concat (counts ▸ Nat.le_add_right _ _), counts⟩

/-- Where nothing is open, the next closing parenthesis has no partner. -/
theorem not_staysOpen_closing (leaves : LeavesOpen text 0) : ¬ StaysOpen (text ++ [')']) := by
  intro opens
  have more := opens _ (List.prefix_refl _)
  rw [List.count_append, List.count_append, leaves.count_eq] at more
  exact Nat.not_succ_le_self _ more

theorem of_filter (leaves : LeavesOpen (text.filter isParenthesis) depth) :
    LeavesOpen text depth := by
  have counts : ∀ {part : List Char} {parenthesis : Char}, isParenthesis parenthesis = true →
      (part.filter isParenthesis).count parenthesis = part.count parenthesis :=
    fun isOne => List.count_filter isOne
  refine ⟨fun part isPrefix => ?_, ?_⟩
  · have more := leaves.staysOpen _ (isPrefix.filter isParenthesis)
    rwa [counts rfl, counts rfl] at more
  · have same := leaves.count_eq
    rwa [counts rfl, counts rfl] at same

end LeavesOpen

/-- **Behind the last parenthesis that is never closed, as many are closed as opened.** -/
theorem length_le_of_staysOpen {before rest front back : List Char}
    (same : before ++ '(' :: rest = front ++ '(' :: back) (leaves : LeavesOpen rest 0)
    (unclosed : StaysOpen back) : front.length ≤ before.length := by
  by_contra longer
  obtain ⟨between, rfl, cut⟩ | ⟨between, rfl, -⟩ := List.append_eq_append_iff.mp same
  · cases between with
    | nil => simp at longer
    | cons first between =>
        obtain rfl : rest = between ++ '(' :: back := (List.cons.inj cut).2
        have balanced := leaves.count_eq
        have inner := leaves.staysOpen between (List.prefix_append _ _)
        have outer := unclosed back (List.prefix_refl _)
        rw [List.count_append, List.count_append, List.count_cons_self,
          List.count_cons_of_ne (by decide)] at balanced
        omega
  · rw [List.length_append] at longer
    omega

/-! ## Lexemes -/

theorem isParenthesis_of_isNumeral {character : Char}
    (isNumeral : Literal.isNumeral character = true) : isParenthesis character = false := by
  rw [← Bool.not_eq_true]
  intro isOne
  simp only [isParenthesis, Bool.or_eq_true, decide_eq_true_eq] at isOne
  obtain rfl | rfl := isOne <;> cases isNumeral

theorem isParenthesis_of_isBlank {character : Char} (isBlank : Text.isBlank character = true) :
    isParenthesis character = false := by
  rw [← Bool.not_eq_true]
  intro isOne
  simp only [isParenthesis, Bool.or_eq_true, decide_eq_true_eq] at isOne
  obtain rfl | rfl := isOne <;> cases isBlank

theorem filter_isParenthesis_of_symbol {character : Char} {lexeme : Lexeme}
    (isSymbol : Lexeme.ofSymbol? character = some lexeme) (rest : List Char) :
    (character :: rest).filter isParenthesis
      = lexeme.parenthesis?.toList ++ rest.filter isParenthesis := by
  unfold Lexeme.ofSymbol? at isSymbol
  split at isSymbol
  all_goals first | cases isSymbol; rfl | cases isSymbol

/-- **The parentheses of a text are those of its lexemes.** -/
theorem SplitsUpTo.filter_isParenthesis {text rest : List Char} {position place : Nat}
    {lexemes : List (Lexeme × Nat)} (upTo : SplitsUpTo rest place text position lexemes) :
    text.filter isParenthesis = lexemeParentheses lexemes ++ rest.filter isParenthesis := by
  induction upTo with
  | here => rfl
  | blank character isBlank behind ih =>
      rw [List.filter_cons_of_neg (by rw [isParenthesis_of_isBlank isBlank]; decide), ih]
  | symbol character lexeme isSymbol behind ih =>
      rw [filter_isParenthesis_of_symbol isSymbol, ih, lexemeParentheses_cons, List.append_assoc]
  | number run value nonempty numerals maximal isLiteral behind ih =>
      have nothing : run.filter isParenthesis = [] := by
        refine List.filter_eq_nil_iff.mpr fun character member => ?_
        rw [isParenthesis_of_isNumeral (numerals character member)]
        decide
      rw [List.filter_append, nothing, List.nil_append, ih]
      rfl

end InfixArithmetic
