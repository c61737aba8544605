import InfixArithmetic.Proofs.Arithmetic.Finite
import InfixArithmetic.Proofs.Machine.Preserved
import InfixArithmetic.Proofs.Machine.Refinement
import InfixArithmetic.Proofs.TokenStream.Lossless

/-!
# Values stay finite

Nothing but a finite number ever lies on a stack of values, if none but finite numbers are
put there.  A sign keeps its operand finite, a binary operator is checked, and what is
refused or fails over the arithmetic only takes values away
(`ValueStack.preserves_isFinite`).  So it is along any steps of a machine, behind failures
and behind the end too, and every result is finite.

The numbers of a source are literals, which are checked when they are read.  So a source
never has a value that is infinite or not a number (`values_stay_finite`).
-/

namespace InfixArithmetic

set_option autoImplicit false

/-! ## Stacks -/

namespace ValueStack

/-- Every value on a stack is finite. -/
def IsFinite (stack : ValueStack) : Prop :=
  ∀ value ∈ stack.values, value.isFinite = true

variable {stack : ValueStack}

theorem isFinite_empty : ({} : ValueStack).IsFinite :=
  List.forall_mem_nil _

theorem IsFinite.push (finite : stack.IsFinite) {value : Float} (fits : value.isFinite = true) :
    (stack.push value).IsFinite :=
  List.forall_mem_cons.mpr ⟨fits, finite⟩

theorem IsFinite.settle (finite : stack.IsFinite) {result : Except Failure Float}
    (fits : ∀ value, result = .ok value → value.isFinite = true) :
    (stack.settle result).2.IsFinite := by
  cases result with
  | ok value => exact finite.push (fits value rfl)
  | error failure => exact finite

theorem isFinite_of_applyUnary {token : Token} {operand value : Float} {position : Nat}
    (finite : operand.isFinite = true) (applied : token.applyUnary operand position = .ok value) :
    value.isFinite = true := by
  cases token with
  | sign polarity =>
      cases applied
      exact Sign.isFinite_apply finite
  | number | binary | opening | closing | endOfInput => cases applied

theorem isFinite_of_applyBinary {token : Token} {left right value : Float} {position : Nat}
    (applied : token.applyBinary left right position = .ok value) : value.isFinite = true := by
  cases token with
  | binary op =>
      rw [Token.applyBinary] at applied
      cases result : op.apply left right position with
      | ok found =>
          rw [result] at applied
          cases applied
          exact BinaryOp.isFinite_of_apply result
      | error error =>
          rw [result] at applied
          cases applied
  | number | sign | opening | closing | endOfInput => cases applied

theorem IsFinite.apply (finite : stack.IsFinite) (entry : Pending) :
    (stack.apply entry).2.IsFinite := by
  obtain ⟨values⟩ := stack
  rw [ValueStack.apply]
  split
  · match values, finite with
    | [], _ => exact List.forall_mem_nil _
    | operand :: below, finite =>
        obtain ⟨finiteOperand, finiteBelow⟩ := List.forall_mem_cons.mp finite
        have below : IsFinite ⟨below⟩ := finiteBelow
        exact below.settle fun value => isFinite_of_applyUnary finiteOperand
  · match values, finite with
    | [], _ | [_], _ => exact List.forall_mem_nil _
    | right :: left :: below, finite =>
        have below : IsFinite ⟨below⟩ :=
          (List.forall_mem_cons.mp (List.forall_mem_cons.mp finite).2).2
        exact below.settle fun value => isFinite_of_applyBinary

theorem IsFinite.result (finite : stack.IsFinite) (position : Nat) :
    (stack.result position).2.IsFinite ∧
      ∀ value, (stack.result position).1 = .ok value → value.isFinite = true := by
  obtain ⟨values⟩ := stack
  match values, finite with
  | [], _ => exact ⟨List.forall_mem_nil _, nofun⟩
  | [single], finite =>
      refine ⟨List.forall_mem_nil _, fun value answered => ?_⟩
      cases answered
      exact finite single List.mem_cons_self
  | _ :: _ :: _, finite => exact ⟨(List.forall_mem_cons.mp finite).2, nofun⟩

/-- **No call puts anything but a finite value on a stack.** -/
theorem preserves_isFinite :
    OperandSide.Preserves IsFinite (·.isFinite = true) (·.isFinite = true) where
  take finite fits _ := finite.push fits
  apply finite entry := finite.apply entry
  result finite position := finite.result position

end ValueStack

/-! ## Sources -/

theorem number_mem_of_mem_tokensAfter {latest : Option Token} {lexemes : List (Lexeme × Nat)}
    {value : Float} {position : Nat}
    (drawn : (.number value, position) ∈ tokensAfter latest lexemes) :
    (.number value, position) ∈ lexemes := by
  obtain ⟨front, back, seen⟩ := List.append_of_mem drawn
  exact (drawn_of_tokensAfter seen).mem_lexemes rfl nofun

theorem Splits.isFinite {text : List Char} {final : Nat} {lexemes : List (Lexeme × Nat)}
    (splits : Splits text 0 lexemes final) {value : Float} {position : Nat}
    (member : (.number value, position) ∈ lexemes) : value.isFinite = true := by
  obtain ⟨before, shown, behind, -, stands, -⟩ := splits.stands _ _ member
  exact Literal.isFinite_of_read stands.maximal.2

theorem isFinite_of_evaluate {source : String} {value : Float}
    (answered : evaluate source = .ok value) : value.isFinite = true := by
  obtain ⟨written, wrote, -⟩ := exists_written_of_evaluate answered
  obtain ⟨lexemes, final, -, splits, -⟩ := reads_of_toReversePolish wrote
  refine ValueStack.preserves_isFinite.runFrom ValueStack.isFinite_empty ?_ answered
  intro number position member
  rw [items_of_splits splits, endedStream, streamOf, List.mem_map] at member
  obtain ⟨placed, found, same⟩ := member
  cases same
  obtain drawn | ended := List.mem_append.mp found
  · exact splits.isFinite (number_mem_of_mem_tokensAfter drawn)
  · cases List.mem_singleton.mp ended

/-- **Values stay finite.**  A machine is given any tokens whose numbers are finite, and goes
on behind refusals, failures and the end: every value on its stack is finite, and so is
every result.  And a source never has a value that is infinite or not a number. -/
theorem values_stay_finite :
    (∀ tokens : List (Token × Nat),
      (∀ value position, (.number value, position) ∈ tokens → value.isFinite = true) →
        ∀ step ∈ (Machine.start ({} : ValueStack)).steps tokens,
          (∀ value ∈ step.machine.side.values, value.isFinite = true) ∧
            ∀ value, step.answer = .ok (some value) → value.isFinite = true) ∧
      ∀ source value, evaluate source = .ok value →
        value.isFinite = true ∧ value.isNaN = false ∧ value.isInf = false := by
  constructor
  · intro tokens fitting
    exact ValueStack.preserves_isFinite.steps ValueStack.isFinite_empty fitting
  · intro source value answered
    have finite := isFinite_of_evaluate answered
    exact ⟨finite, isNaN_isInf_of_isFinite finite⟩

/-- The tokens of `-1)` with an end behind them: the closing parenthesis closes nothing. -/
def negatedRefusedTokens : List (Token × Nat) :=
  [(.sign .minus, 0), (.number 1, 1), (.closing, 2), (.endOfInput, 3)]

theorem splits_negated : Splits "-1".toList 0 [(.minus, 0), (.number 1, 1)] 2 :=
  .symbol '-' .minus rfl (.number ['1'] 1 nofun (List.forall_mem_singleton.mpr rfl)
    (fun _ isHead => absurd isHead (Option.not_mem_none _)) (by decide) (.ended 2))

/-- The refusal has the sign applied, and the end behind it still yields a finite value, as
the source `-1` does. -/
theorem values_stay_finite_negated :
    (∀ value position, (Token.number value, position) ∈ negatedRefusedTokens →
        value.isFinite = true) ∧
      (∃ step ∈ (Machine.start ({} : ValueStack)).steps negatedRefusedTokens,
        step.answer = .ok (some (-1)) ∧ (-1 : Float).isFinite = true) ∧
      evaluate "-1" = .ok (-1) ∧ (-1 : Float).isNaN = false ∧ (-1 : Float).isInf = false := by
  have fitting : ∀ value position, (Token.number value, position) ∈ negatedRefusedTokens →
      value.isFinite = true := by
    intro value position member
    simp only [negatedRefusedTokens, List.mem_cons, List.not_mem_nil, or_false, reduceCtorEq,
      Prod.mk.injEq, Token.number.injEq, false_and, false_or] at member
    rw [member.1]
    rfl
  have answered : evaluate "-1" = .ok (-1) := by
    rw [evaluate, items_of_splits splits_negated]
    rfl
  obtain ⟨steps, sources⟩ := values_stay_finite
  have last : ∃ step ∈ (Machine.start ({} : ValueStack)).steps negatedRefusedTokens,
      step.answer = .ok (some (-1)) :=
    ⟨_, List.mem_of_getLast? rfl, rfl⟩
  obtain ⟨step, member, ended⟩ := last
  exact ⟨fitting, ⟨step, member, ended, (steps _ fitting step member).2 _ ended⟩, answered,
    (sources _ _ answered).2⟩

end InfixArithmetic
