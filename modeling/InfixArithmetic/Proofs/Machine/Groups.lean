import InfixArithmetic.Proofs.Expression.Diagnosis
import InfixArithmetic.Proofs.Lexeme.Parentheses
import Mathlib.Data.List.Induction

/-!
# Groups that are open

The machine keeps the places of the parentheses that are open, the innermost first.  Counting
tells the same: behind each of them, more or just as many groups are opened than closed, and
the number of those opened and not closed is how far inside the parenthesis stands
(`exists_of_openGroups`).  So the innermost is the last parenthesis that is not closed.

Behind accepted tokens nothing is ever closed that is not open (`groups_of_accepts`).
-/

namespace InfixArithmetic

set_option autoImplicit false

/-- The parenthesis that a token is, if it is one. -/
def Token.parenthesis? : Token → Option Char
  | .opening => some '('
  | .closing => some ')'
  | .number _ | .binary _ | .sign _ | .endOfInput => none

/-- The parentheses among placed tokens. -/
def tokenParentheses (tokens : List (Token × Nat)) : List Char :=
  tokens.filterMap fun placed => placed.1.parenthesis?

theorem tokenParentheses_cons (token : Token) (position : Nat) (rest : List (Token × Nat)) :
    tokenParentheses ((token, position) :: rest)
      = token.parenthesis?.toList ++ tokenParentheses rest := by
  cases token <;> rfl

theorem tokenParentheses_concat (tokens : List (Token × Nat)) (token : Token) (position : Nat) :
    tokenParentheses (tokens ++ [(token, position)])
      = tokenParentheses tokens ++ token.parenthesis?.toList := by
  rw [tokenParentheses, List.filterMap_append, ← tokenParentheses, ← tokenParentheses,
    tokenParentheses_cons]
  exact congrArg _ (List.append_nil _)

theorem openGroups_concat (tokens : List (Token × Nat)) (placed : Token × Nat) :
    openGroups (tokens ++ [placed]) = openBehind (openGroups tokens) placed :=
  List.foldl_append

theorem Lexeme.parenthesis?_tokenAfter (lexeme : Lexeme) (latest : Option Token) :
    (lexeme.tokenAfter latest).parenthesis? = lexeme.parenthesis? := by
  cases lexeme with
  | number | star | slash | percent | opening | closing => rfl
  | plus | minus =>
      rw [tokenAfter, TokenStream.tokenOf]
      split <;> rfl

/-- The parentheses of lexemes are those of their tokens. -/
theorem tokenParentheses_tokensAfter (latest : Option Token) (lexemes : List (Lexeme × Nat)) :
    tokenParentheses (tokensAfter latest lexemes) = lexemeParentheses lexemes := by
  induction lexemes generalizing latest with
  | nil => rfl
  | cons placed rest ih =>
      obtain ⟨lexeme, position⟩ := placed
      have written : tokenParentheses
          ((lexeme.tokenAfter latest, position)
            :: tokensAfter (some (lexeme.tokenAfter latest)) rest)
            = lexemeParentheses ((lexeme, position) :: rest) := by
        rw [tokenParentheses_cons, lexemeParentheses_cons, lexeme.parenthesis?_tokenAfter, ih]
      by_cases implied : TokenStream.impliesStar latest (lexeme.tokenAfter latest) = true
      · rw [tokensAfter_of_implied implied]
        exact written
      · rw [tokensAfter_of_written implied]
        exact written

/-- **Behind an open parenthesis nothing is closed but what is opened there**, and as many
groups are left open there as there are inside it. -/
theorem exists_of_openGroups {tokens : List (Token × Nat)} {inner outer : List Nat} {opening : Nat}
    (opened : openGroups tokens = inner ++ opening :: outer) :
    ∃ front back, tokens = front ++ (.opening, opening) :: back ∧
      LeavesOpen (tokenParentheses back) inner.length := by
  induction tokens using List.reverseRecOn generalizing inner with
  | nil => exact absurd opened.symm (List.append_ne_nil_of_right_ne_nil inner nofun)
  | append_singleton tokens placed ih =>
      obtain ⟨token, position⟩ := placed
      rw [openGroups_concat] at opened
      have behind : ∀ before, openGroups tokens = before ++ opening :: outer →
          (∀ back, LeavesOpen (tokenParentheses back) before.length →
            LeavesOpen (tokenParentheses (back ++ [(token, position)])) inner.length) →
          ∃ front back, tokens ++ [(token, position)] = front ++ (.opening, opening) :: back ∧
            LeavesOpen (tokenParentheses back) inner.length := by
        intro before openedBefore step
        obtain ⟨front, back, rfl, leaves⟩ := ih openedBefore
        exact ⟨front, back ++ [(token, position)], by simp, step back leaves⟩
      cases token with
      | opening =>
          cases inner with
          | nil =>
              obtain ⟨rfl, -⟩ := List.cons.inj opened
              exact ⟨tokens, [], rfl, .nil⟩
          | cons first inner =>
              refine behind inner (List.cons.inj opened).2 fun back leaves => ?_
              rw [tokenParentheses_concat]
              exact leaves.opening
      | closing =>
          cases before : openGroups tokens with
          | nil =>
              rw [before] at opened
              exact absurd opened.symm (List.append_ne_nil_of_right_ne_nil inner nofun)
          | cons first others =>
              rw [before] at opened
              change others = _ at opened
              subst opened
              refine behind (first :: inner) before fun back leaves => ?_
              rw [tokenParentheses_concat]
              exact leaves.closing
      | number | binary | sign | endOfInput =>
          refine behind inner opened fun back leaves => ?_
          rw [tokenParentheses_concat]
          exact (List.append_nil _).symm ▸ leaves

namespace Machine

variable {page : ReversePolish}

/-- **What is closed among accepted tokens was open**, and what is open behind them is what
was not closed. -/
theorem leavesOpen_of_accepts {tokens : List (Token × Nat)}
    (accepts : (start page).Accepts tokens) :
    LeavesOpen (tokenParentheses tokens) (openGroups tokens).length := by
  induction tokens using List.reverseRecOn with
  | nil => exact .nil
  | append_singleton tokens placed ih =>
      obtain ⟨token, position⟩ := placed
      obtain ⟨earlier, last⟩ := accepts_append.mp accepts
      obtain ⟨accepted, -⟩ := accepts_cons.mp last
      have leaves := ih earlier
      rw [openGroups_concat, tokenParentheses_concat]
      cases token with
      | opening => exact leaves.opening
      | closing =>
          have tracks := tracks_after page earlier
          have placed := (step_of_accepted accepted).1
          cases opened : openGroups tokens with
          | nil =>
              rw [(closing_fails_iff placed).mpr ⟨rfl, tracks.opened_eq.trans opened⟩] at accepted
              cases accepted
          | cons first outer =>
              rw [opened] at leaves
              exact leaves.closing
      | number | binary | sign | endOfInput => exact (List.append_nil _).symm ▸ leaves

end Machine

end InfixArithmetic
