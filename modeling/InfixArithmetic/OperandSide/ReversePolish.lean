import InfixArithmetic.OperandSide.Basic

/-!
# Writing in reverse Polish order

Writing an expression down in reverse Polish order takes no arithmetic: numbers
and applied operators are written as they come.  Nothing can fail.
-/

namespace InfixArithmetic

set_option autoImplicit false

/-- The tokens written so far, the latest first. -/
structure ReversePolish where
  written : List Token := []
  deriving DecidableEq

namespace ReversePolish

/-- The tokens written so far, in order. -/
def tokens (page : ReversePolish) : List Token :=
  page.written.reverse

/-- Writes a token behind the others. -/
def write (page : ReversePolish) (token : Token) : ReversePolish :=
  ⟨token :: page.written⟩

instance : OperandSide ReversePolish (List Token) where
  take page value _ := page.write (.number value)
  apply page entry := (.ok (), page.write entry.token)
  result page _ := (.ok page.tokens, {})

/-! ## The page through its tokens -/

@[simp] theorem tokens_empty : ({} : ReversePolish).tokens = [] := rfl

@[simp] theorem tokens_write (page : ReversePolish) (token : Token) :
    (page.write token).tokens = page.tokens ++ [token] := by
  show (token :: page.written).reverse = page.written.reverse ++ [token]
  rw [List.reverse_cons]

end ReversePolish

end InfixArithmetic
