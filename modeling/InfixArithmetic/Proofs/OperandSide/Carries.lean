import InfixArithmetic.OperandSide.ReversePolish
import InfixArithmetic.OperandSide.ValueStack
import InfixArithmetic.Proofs.Machine.Replay

/-!
# Calls with operands for every operator

A number is one operand more, a sign takes one operand and gives one back, and a
binary operator takes two and gives one back.  `Carries` says that calls lead from
one number of operands to another in this way and never ask for more than there is.

What both operand sides make of such calls is then known.  A page takes them all and
holds their tokens (`ReversePolish.replay_of_carries`).  A stack of values can only
fail over the arithmetic; otherwise it ends with the number of values that was
foretold, and those are what its tokens reduce to, read off the page again
(`ValueStack.replay_of_carries`).
-/

namespace InfixArithmetic

set_option autoImplicit false

open OperandSide

/-! ## Calls and the number of operands -/

/-- Whether a call hands something over, rather than asks for the result. -/
def Call.handsOver : Call → Bool
  | .take _ _ | .apply _ => true
  | .result _ => false

/-- What a call leaves on a page. -/
def Call.written : Call → List Token
  | .take value _ => [.number value]
  | .apply entry => [entry.token]
  | .result _ => []

/-- Calls carry a number of operands to another, with operands for every operator. -/
inductive Carries : Nat → List Call → Nat → Prop where
  | none (count : Nat) : Carries count [] count
  | take {count final : Nat} {rest : List Call} (value : Float) (position : Nat)
      (later : Carries (count + 1) rest final) :
    Carries count (.take value position :: rest) final
  | sign {count final : Nat} {rest : List Call} (polarity : Sign) (position : Nat)
      (later : Carries (count + 1) rest final) :
    Carries (count + 1) (.apply (.of (.sign polarity) position) :: rest) final
  | binary {count final : Nat} {rest : List Call} (op : BinaryOp) (position : Nat)
      (later : Carries (count + 1) rest final) :
    Carries (count + 2) (.apply (.of (.binary op) position) :: rest) final

namespace Carries

theorem append {count middle final : Nat} {front back : List Call}
    (first : Carries count front middle) (second : Carries middle back final) :
    Carries count (front ++ back) final := by
  induction first with
  | none => exact second
  | take value position later ih => exact .take value position (ih second)
  | sign polarity position later ih => exact .sign polarity position (ih second)
  | binary op position later ih => exact .binary op position (ih second)

theorem filter_handsOver {count final : Nat} {calls : List Call}
    (carries : Carries count calls final) : calls.filter Call.handsOver = calls := by
  induction carries with
  | none => rfl
  | take value position later ih => exact congrArg (Call.take value position :: ·) ih
  | sign polarity position later ih => exact congrArg (Call.apply _ :: ·) ih
  | binary op position later ih => exact congrArg (Call.apply _ :: ·) ih

end Carries

/-! ## The page -/

namespace ReversePolish

/-- A page takes any calls. -/
theorem exists_replay (page : ReversePolish) (calls : List Call) :
    ∃ later, replay page calls = .ok later := by
  induction calls generalizing page with
  | nil => exact ⟨page, rfl⟩
  | cons call rest ih =>
      cases call with
      | take value position => exact ih (page.write (.number value))
      | apply entry => exact ih (page.write entry.token)
      | result position => exact ih {}

/-- A page holds the tokens of what it was handed. -/
theorem replay_of_carries {count final : Nat} {calls : List Call}
    (carries : Carries count calls final) (page : ReversePolish) :
    ∃ later : ReversePolish, replay page calls = .ok later ∧
      later.tokens = page.tokens ++ calls.flatMap Call.written := by
  induction carries generalizing page with
  | none => exact ⟨page, rfl, (List.append_nil _).symm⟩
  | take value position _ ih =>
      obtain ⟨later, replayed, tokens⟩ := ih (page.write (.number value))
      refine ⟨later, replayed, tokens.trans ?_⟩
      rw [page.tokens_write, List.append_assoc]
      rfl
  | sign polarity position _ ih =>
      obtain ⟨later, replayed, tokens⟩ := ih (page.write (.sign polarity))
      refine ⟨later, replayed, tokens.trans ?_⟩
      rw [page.tokens_write, List.append_assoc]
      rfl
  | binary op position _ ih =>
      obtain ⟨later, replayed, tokens⟩ := ih (page.write (.binary op))
      refine ⟨later, replayed, tokens.trans ?_⟩
      rw [page.tokens_write, List.append_assoc]
      rfl

end ReversePolish

/-! ## Reducing a page -/

/-- An operator has a result if its right operand is not refused and what it yields is
finite. -/
theorem BinaryOp.apply_eq_ok_iff {op : BinaryOp} {left right result : Float} {position : Nat} :
    op.apply left right position = .ok result ↔
      op.refusal? right position = none ∧ (op.compute left right).isFinite = true ∧
        op.compute left right = result := by
  rw [apply]
  cases op.refusal? right position with
  | some error => simp
  | none => by_cases finite : (op.compute left right).isFinite = true <;> simp [finite]

/-- Whether an operand is refused does not depend on the place of the operator. -/
theorem BinaryOp.refusal?_eq_none {op : BinaryOp} {right : Float} {position : Nat}
    (accepted : op.refusal? right position = none) (place : Nat) :
    op.refusal? right place = none := by
  rw [refusal?] at accepted ⊢
  split at accepted
  · cases op with
    | add | sub | mul => exact if_pos ‹_›
    | div | rem => cases accepted
  · exact if_neg ‹_›

theorem BinaryOp.apply_of_ok {op : BinaryOp} {left right result : Float} {position : Nat}
    (applied : op.apply left right position = .ok result) (place : Nat) :
    op.apply left right place = .ok result := by
  obtain ⟨accepted, computed⟩ := apply_eq_ok_iff.mp applied
  exact apply_eq_ok_iff.mpr ⟨refusal?_eq_none accepted place, computed⟩

/-- What a token does to a stack of values, the latest first, unless it lacks an operand or
has no finite result. -/
def Token.reduce? (values : List Float) : Token → Option (List Float)
  | .number value => some (value :: values)
  | .sign polarity =>
      match values with
      | operand :: below => some (polarity.apply operand :: below)
      | [] => none
  | .binary op =>
      match values with
      | right :: left :: below => (op.apply left right 0).toOption.map (· :: below)
      | _ => none
  | .opening | .closing | .endOfInput => none

/-- The value that a sequence in reverse Polish order reduces to, every operator being
checked for its operands and its result. -/
def reduction? (tokens : List Token) : Option Float :=
  match tokens.foldlM Token.reduce? [] with
  | some [value] => some value
  | _ => none

/-! ## The stack of values -/

namespace ValueStack

theorem apply_sign (stack : ValueStack) (operand : Float) (polarity : Sign) (position : Nat) :
    (stack.push operand).apply (.of (.sign polarity) position)
      = (.ok (), stack.push (polarity.apply operand)) :=
  rfl

/-- An operator is applied to the two topmost values, the upper one on its right. -/
theorem apply_binary (stack : ValueStack) (left right : Float) (op : BinaryOp)
    (position : Nat) :
    ((stack.push left).push right).apply (.of (.binary op) position)
      = match op.apply left right position with
        | .ok result => (.ok (), stack.push result)
        | .error error => (.error (.arithmetic error), stack) := by
  show settle stack ((Token.binary op).applyBinary left right position) = _
  rw [Token.applyBinary]
  cases op.apply left right position <;> rfl

/-- **With operands for every operator only the arithmetic can fail.**  If it does not,
the stack holds as many values as the calls carry, and they are what the tokens of the
calls reduce to. -/
theorem replay_of_carries {count final : Nat} {calls : List Call}
    (carries : Carries count calls final) (stack : ValueStack)
    (size : stack.values.length = count) :
    (∃ error, replay stack calls = .error (.arithmetic error)) ∨
      ∃ later, replay stack calls = .ok later ∧ later.values.length = final ∧
        (calls.flatMap Call.written).foldlM Token.reduce? stack.values = some later.values := by
  induction carries generalizing stack with
  | none => exact .inr ⟨stack, rfl, size, rfl⟩
  | take value position _ ih =>
      exact ih (stack.push value) (congrArg (· + 1) size)
  | sign polarity position _ ih =>
      obtain ⟨values⟩ := stack
      cases values with
      | nil => cases size
      | cons operand below =>
          rw [replay_apply_of_ok (apply_sign ⟨below⟩ operand polarity position)]
          exact ih _ size
  | binary op position _ ih =>
      obtain ⟨values⟩ := stack
      match values, size with
      | right :: left :: below, size =>
          have applied := apply_binary ⟨below⟩ left right op position
          cases result : op.apply left right position with
          | error error =>
              rw [result] at applied
              exact .inl ⟨error, replay_apply_of_error applied _⟩
          | ok value =>
              rw [result] at applied
              rw [replay_apply_of_ok applied]
              obtain failed | ⟨later, replayed, length, reduced⟩ :=
                ih ((⟨below⟩ : ValueStack).push value) (Nat.succ.inj size)
              · exact .inl failed
              · refine .inr ⟨later, replayed, length, ?_⟩
                have step : Token.reduce? (right :: left :: below) (.binary op)
                    = some (value :: below) := by
                  rw [Token.reduce?, BinaryOp.apply_of_ok result]
                  rfl
                show (Token.reduce? (right :: left :: below) (.binary op)).bind _ = _
                rw [step]
                exact reduced

end ValueStack

end InfixArithmetic
