import Mathlib.Data.List.Chain
import InfixArithmetic.Proofs.Machine.Applied
import InfixArithmetic.Proofs.Machine.Conservation

/-!
# The order of the stack

Between two open parentheses the stack of pending operators grows more tightly binding from
the bottom to the top, signs apart, which can lie on one another (`Pending.MayLieOn`).  An
operator joins the stack only when nothing on top has to be applied before it, and that is what
the order asks of it; everything else that a step does to the stack is taking entries off the
top, be the step answered with a failure halfway.  So every step keeps the order
(`InOrder.step`), with any operand side, any token and any answer.

There are but three strengths, so a group never has more than two binary operators pending,
with any number of signs on top (`InOrder.exists_signs`).  And what is applied was accepted as a
sign or as a binary operator (`exists_operator_of_applied`), so neither of the two operand sides
is ever asked to apply anything else, or finds an operator of the other kind where it reads off
how many operands to take (`pending_operators_are_ordered`).
-/

namespace InfixArithmetic

set_option autoImplicit false

/-! ## Strengths -/

theorem BinaryOp.precedence_cases (op : BinaryOp) :
    (Token.binary op).precedence = 1 ∨ (Token.binary op).precedence = 2 := by
  cases op with
  | add | sub => exact .inl rfl
  | mul | div | rem => exact .inr rfl

theorem BinaryOp.precedence_lt_sign (op : BinaryOp) (polarity : Sign) :
    (Token.binary op).precedence < (Token.sign polarity).precedence := by
  show (Token.binary op).precedence < 3
  have strength := op.precedence_cases
  omega

namespace Pending

/-! ## Neighbours on the stack -/

/-- Whether an entry can lie right above another one: between parentheses it binds more
tightly, or both are signs. -/
def MayLieOn (upper lower : Pending) : Prop :=
  upper.isBoundary = false → lower.isBoundary = false →
    lower.precedence < upper.precedence ∨ (upper.isSign = true ∧ lower.isSign = true)

/-- A parenthesis can be opened above anything. -/
theorem opening_mayLieOn (position : Nat) (lower : Pending) :
    (Pending.of .opening position).MayLieOn lower :=
  nofun

/-- A sign can stand above anything. -/
theorem sign_mayLieOn (polarity : Sign) (position : Nat) {lower : Pending}
    (proper : lower.IsProper) : (Pending.of (.sign polarity) position).MayLieOn lower := by
  intro _ inside
  cases proper with
  | opening place => cases inside
  | sign other place => exact .inr ⟨rfl, rfl⟩
  | binary op place => exact .inl (op.precedence_lt_sign polarity)

/-- A binary operator can lie on an entry that need not be applied before it. -/
theorem binary_mayLieOn (op : BinaryOp) (position : Nat) {lower : Pending}
    (stays : ¬ lower.goesBefore (.of (.binary op) position) = true) :
    (Pending.of (.binary op) position).MayLieOn lower := by
  intro _ inside
  have test : lower.goesBefore (.of (.binary op) position)
      = decide ((Token.binary op).precedence ≤ lower.precedence) := by
    rw [goesBefore, inside]
    rfl
  rw [test, decide_eq_true_iff] at stays
  exact .inl (Nat.lt_of_not_le stays)

end Pending

/-! ## Stacks in order -/

/-- A stack of pending operators, the latest first, is in order. -/
structure InOrder (waiting : List Pending) : Prop where
  /-- Every entry is that of an opening parenthesis, a sign or a binary operator, with the
  strength of its token. -/
  proper : ∀ entry ∈ waiting, entry.IsProper
  /-- No entry lies on one that it may not lie on. -/
  chain : waiting.IsChain Pending.MayLieOn

namespace InOrder

variable {waiting : List Pending}

theorem nil : InOrder [] :=
  ⟨List.forall_mem_nil _, .nil⟩

theorem suffix (inOrder : InOrder waiting) {rest : List Pending} (left : rest <:+ waiting) :
    InOrder rest :=
  ⟨fun entry member => inOrder.proper entry (left.mem member), inOrder.chain.suffix left⟩

theorem cons (inOrder : InOrder waiting) {entry : Pending} (proper : entry.IsProper)
    (fits : ∀ top below, waiting = top :: below → entry.MayLieOn top) :
    InOrder (entry :: waiting) := by
  refine ⟨List.forall_mem_cons.mpr ⟨proper, inOrder.proper⟩, ?_⟩
  cases waiting with
  | nil => exact .singleton entry
  | cons top below => exact .cons_cons (fits top below rfl) inOrder.chain

/-! ## Steps -/

section Steps

variable {σ β : Type} [OperandSide σ β]

theorem unwind (inOrder : InOrder waiting) (test : Pending → Bool) (side : σ) :
    InOrder (unwind test side waiting).waiting :=
  inOrder.suffix ⟨_, applied_append_waiting side waiting⟩

variable {machine : Machine σ}

/-- An operator finds nothing on top that has to be applied before it, unless it stays off the
stack. -/
theorem takeOperator (inOrder : InOrder machine.waiting) {token : Token}
    (proper : ∀ position, (Pending.of token position).IsProper)
    (fits : ∀ position lower, lower.IsProper → ¬ lower.goesBefore (.of token position) = true →
      (Pending.of token position).MayLieOn lower)
    (position : Nat) :
    InOrder (machine.takeOperator (β := β) token position).machine.waiting := by
  have left := inOrder.unwind (·.goesBefore (.of token position)) machine.side
  simp only [Machine.takeOperator]
  split
  · exact left
  · refine left.cons (proper position) fun top below onTop => ?_
    have stays := not_passes_of_unwind machine.side machine.waiting ‹_› onTop
    rw [onTop] at left
    exact fits position top (left.proper top List.mem_cons_self) stays

theorem leaveGroup (inOrder : InOrder machine.waiting) (position : Nat) :
    InOrder (machine.leaveGroup (β := β) position).machine.waiting := by
  have left := inOrder.unwind (!·.isBoundary) machine.side
  simp only [Machine.leaveGroup]
  split
  · exact left
  · exact left
  · rename_i found
    rw [found] at left
    exact left.suffix (List.suffix_cons _ _)

theorem conclude (inOrder : InOrder machine.waiting) (position : Nat) :
    InOrder (machine.conclude (β := β) position).machine.waiting := by
  have left := inOrder.unwind (!·.isBoundary) machine.side
  simp only [Machine.conclude]
  split
  · exact left
  · rename_i found
    rw [found] at left
    exact left.suffix (List.suffix_cons _ _)
  · exact nil

/-- **Every step keeps the order**, whatever the token and however it is answered. -/
theorem step (inOrder : InOrder machine.waiting) (token : Token) (position : Nat) :
    InOrder (machine.step (β := β) token position).machine.waiting := by
  by_cases placed : machine.expectation = token.place
  · rw [Machine.step_of_placed placed]
    cases token with
    | number value => exact inOrder
    | opening =>
        exact inOrder.cons (.opening position) fun top _ _ => Pending.opening_mayLieOn position top
    | sign polarity =>
        exact inOrder.takeOperator (.sign polarity)
          (fun place _ proper _ => Pending.sign_mayLieOn polarity place proper) position
    | binary op =>
        exact inOrder.takeOperator (.binary op)
          (fun place _ _ stays => Pending.binary_mayLieOn op place stays) position
    | closing => exact inOrder.leaveGroup position
    | endOfInput => exact inOrder.conclude position
  · rw [Machine.step_of_misplaced machine token position placed]
    exact inOrder

/-- **The order is kept along any tokens.** -/
theorem after (inOrder : InOrder machine.waiting) (tokens : List (Token × Nat)) :
    InOrder (machine.after (β := β) tokens).waiting := by
  induction tokens generalizing machine with
  | nil => exact inOrder
  | cons placed rest ih =>
      obtain ⟨token, position⟩ := placed
      exact ih (inOrder.step token position)

end Steps

/-! ## Groups -/

/-- Below a binary operator there is a weaker one, between parentheses. -/
theorem weaker_of_binary {op : BinaryOp} {position : Nat} {lower : Pending} {below : List Pending}
    (inOrder : InOrder (.of (.binary op) position :: lower :: below))
    (inside : lower.isBoundary = false) :
    lower.isSign = false ∧ lower.precedence < (Token.binary op).precedence := by
  have lies : (Pending.of (.binary op) position).MayLieOn lower :=
    (List.isChain_cons_cons.mp inOrder.chain).1
  have weaker := (lies rfl inside).resolve_right fun both => Bool.noConfusion both.1
  refine ⟨?_, weaker⟩
  cases inOrder.proper lower (List.mem_cons_of_mem _ List.mem_cons_self) with
  | opening | binary => rfl
  | sign polarity place => exact absurd weaker (Nat.lt_asymm (op.precedence_lt_sign polarity))

/-- Between parentheses, what is pending are signs above binary operators, and no more binary
operators than the strength of the topmost one. -/
theorem exists_signs (inOrder : InOrder waiting)
    (inside : ∀ entry ∈ waiting, entry.isBoundary = false) :
    ∃ signs binaries, waiting = signs ++ binaries ∧ (∀ entry ∈ signs, entry.isSign = true) ∧
      (∀ entry ∈ binaries, entry.isBinary = true) ∧
        ∀ top ∈ binaries.head?, binaries.length ≤ top.precedence := by
  induction waiting with
  | nil => exact ⟨[], [], rfl, List.forall_mem_nil _, List.forall_mem_nil _, nofun⟩
  | cons top below ih =>
      obtain ⟨insideTop, insideBelow⟩ := List.forall_mem_cons.mp inside
      obtain ⟨signs, binaries, rfl, areSigns, areBinary, few⟩ :=
        ih (inOrder.suffix (List.suffix_cons _ _)) insideBelow
      cases inOrder.proper top List.mem_cons_self with
      | opening position => cases insideTop
      | sign polarity position =>
          exact ⟨_ :: signs, binaries, rfl, List.forall_mem_cons.mpr ⟨rfl, areSigns⟩, areBinary,
            few⟩
      | binary op position =>
          cases signs with
          | cons sign others =>
              have noSign := (inOrder.weaker_of_binary (insideBelow sign List.mem_cons_self)).1
              exact absurd (areSigns sign List.mem_cons_self) (Bool.eq_false_iff.mp noSign)
          | nil =>
              refine ⟨[], _ :: binaries, rfl, areSigns, List.forall_mem_cons.mpr ⟨rfl, areBinary⟩,
                ?_⟩
              rintro _ ⟨⟩
              cases binaries with
              | nil =>
                  have strength := op.precedence_cases
                  show 1 ≤ (Token.binary op).precedence
                  omega
              | cons lower others =>
                  have weaker := (inOrder.weaker_of_binary (insideBelow lower List.mem_cons_self)).2
                  have fewBelow : others.length + 1 ≤ lower.precedence := few lower rfl
                  exact Nat.succ_le_of_lt (Nat.lt_of_le_of_lt fewBelow weaker)

/-- **A group has at most two binary operators pending**, with signs on top. -/
theorem exists_group (inOrder : InOrder waiting) {above group below : List Pending}
    (cut : waiting = above ++ group ++ below)
    (inside : ∀ entry ∈ group, entry.isBoundary = false) :
    ∃ signs binaries, group = signs ++ binaries ∧ (∀ entry ∈ signs, entry.isSign = true) ∧
      (∀ entry ∈ binaries, entry.isBinary = true) ∧ binaries.length ≤ 2 := by
  subst cut
  have proper : ∀ entry ∈ group, entry.IsProper := fun entry member =>
    inOrder.proper entry (List.mem_append_left _ (List.mem_append_right _ member))
  have inOrderGroup : InOrder group :=
    ⟨proper, inOrder.chain.left_of_append.right_of_append⟩
  obtain ⟨signs, binaries, rfl, areSigns, areBinary, few⟩ := inOrderGroup.exists_signs inside
  refine ⟨signs, binaries, rfl, areSigns, areBinary, ?_⟩
  cases binaries with
  | nil => exact Nat.zero_le 2
  | cons top others =>
      refine Nat.le_trans (few top rfl) ?_
      have isBinary := areBinary top List.mem_cons_self
      cases proper top (List.mem_append_right _ List.mem_cons_self) with
      | opening | sign => cases isBinary
      | binary op position =>
          show (Token.binary op).precedence ≤ 2
          have strength := op.precedence_cases
          omega

end InOrder

/-! ## What is applied -/

section Applied

variable {σ β : Type}

theorem Turn.eq_of_operator? {turn : Turn σ β} {entry : Pending}
    (accepted : turn.operator? = some entry) :
    turn.token.isOperator = true ∧ entry = .of turn.token turn.position := by
  rw [operator?] at accepted
  split at accepted
  · refine ⟨‹_›, ?_⟩
    rw [Step.accepting] at accepted
    split at accepted <;> cases accepted
    rfl
  · cases accepted

variable [OperandSide σ β]

/-- **What is applied was accepted as an operator.** -/
theorem exists_operator_of_applied {side : σ} {tokens : List (Token × Nat)}
    {step : Step σ (Option β)} (made : step ∈ (Machine.start side).steps tokens) {entry : Pending}
    (applied : .apply entry ∈ step.calls) :
    ∃ token position, token.isOperator = true ∧ entry = .of token position := by
  rw [← Machine.map_step_history] at made
  obtain ⟨turn, isTurn, rfl⟩ := List.mem_map.mp made
  have handed : entry ∈ ((((Machine.start side).history tokens).flatMap
      (·.step.calls)).filterMap Call.applied?) :=
    List.mem_filterMap.mpr ⟨_, List.mem_flatMap.mpr ⟨turn, isTurn, applied⟩, rfl⟩
  have conserved := (Machine.start side).history_conserves (β := β) tokens
  obtain accepted | waited :=
    List.mem_append.mp (conserved.mem_iff.mpr (List.mem_append_left _ handed))
  · obtain ⟨other, -, isOperator⟩ := List.mem_filterMap.mp accepted
    exact ⟨other.token, other.position, Turn.eq_of_operator? isOperator⟩
  · cases waited

theorem Machine.exists_of_mem_steps {machine : Machine σ} {tokens : List (Token × Nat)}
    {step : Step σ (Option β)} (made : step ∈ machine.steps tokens) :
    ∃ (before : Machine σ) (token : Token) (position : Nat), step = before.step token position := by
  induction tokens generalizing machine with
  | nil => cases made
  | cons placed rest ih =>
      obtain ⟨token, position⟩ := placed
      obtain rfl | later := List.mem_cons.mp made
      · exact ⟨machine, token, position, rfl⟩
      · exact ih later

/-- Whether a failure is that of a token applied as an operator that it is not. -/
def Failure.IsMisuse (failure : Failure) : Prop :=
  ∃ token arity position, failure = .misuse token arity position

/-- A side that applies operators properly is never misused. -/
theorem not_isMisuse_of_step {side : σ} {tokens : List (Token × Nat)} {step : Step σ (Option β)}
    (made : step ∈ (Machine.start side).steps tokens) {failure : Failure}
    (proper : ∀ token position, token.isOperator = true →
      FailsFor σ (.of token position) failure → ¬ failure.IsMisuse)
    (ends : FailsAtEnd σ failure → ¬ failure.IsMisuse) (failed : step.answer = .error failure) :
    ¬ failure.IsMisuse := by
  obtain ⟨before, token, position, same⟩ := Machine.exists_of_mem_steps made
  rw [same] at failed
  obtain ⟨error, rfl⟩ | ⟨entry, -, applied, fails⟩ | fails := Machine.cases_of_step_error failed
  · rintro ⟨_, _, _, ⟨⟩⟩
  · rw [← same] at applied
    obtain ⟨other, place, isOperator, rfl⟩ := exists_operator_of_applied made applied
    exact proper other place isOperator fails
  · exact ends fails

end Applied

/-! ## The two operand sides -/

namespace Token

variable {token : Token} {left right operand : Float} {position : Nat} {failure : Failure}

theorem not_isMisuse_of_applyUnary (isSign : (Pending.of token position).isSign = true)
    (failed : token.applyUnary operand position = .error failure) : ¬ failure.IsMisuse := by
  cases token with
  | sign polarity => cases failed
  | number | binary | opening | closing | endOfInput => cases isSign

theorem not_isMisuse_of_applyBinary (isOperator : token.isOperator = true)
    (isSign : ¬ (Pending.of token position).isSign = true)
    (failed : token.applyBinary left right position = .error failure) : ¬ failure.IsMisuse := by
  cases token with
  | binary op =>
      rw [applyBinary] at failed
      split at failed
      · cases failed
      · cases failed
        rintro ⟨_, _, _, ⟨⟩⟩
  | sign polarity => exact absurd rfl isSign
  | number | opening | closing | endOfInput => cases isOperator

end Token

namespace ValueStack

variable {token : Token} {position : Nat} {failure : Failure}

/-- **A stack of values takes each operator for what it is.** -/
theorem not_isMisuse_of_apply (isOperator : token.isOperator = true)
    (fails : FailsFor ValueStack (.of token position) failure) : ¬ failure.IsMisuse := by
  obtain ⟨⟨values⟩, failed⟩ := fails
  change (apply ⟨values⟩ (.of token position)).1 = _ at failed
  rw [apply] at failed
  split at failed
  · cases values with
    | nil =>
        cases failed
        rintro ⟨_, _, _, ⟨⟩⟩
    | cons operand below =>
        exact Token.not_isMisuse_of_applyUnary ‹_› (eq_error_of_settle failed)
  · cases values with
    | nil =>
        cases failed
        rintro ⟨_, _, _, ⟨⟩⟩
    | cons right others =>
        cases others with
        | nil =>
            cases failed
            rintro ⟨_, _, _, ⟨⟩⟩
        | cons left below =>
            exact Token.not_isMisuse_of_applyBinary isOperator ‹_› (eq_error_of_settle failed)

theorem not_isMisuse_of_result (fails : FailsAtEnd ValueStack failure) : ¬ failure.IsMisuse := by
  obtain ⟨stack, position, failed⟩ := fails
  change (stack.result position).1 = _ at failed
  rw [result] at failed
  split at failed
  · cases failed
  all_goals
    cases failed
    rintro ⟨_, _, _, ⟨⟩⟩

end ValueStack

/-- A page never fails at all. -/
theorem ReversePolish.not_failsFor (entry : Pending) (failure : Failure) :
    ¬ FailsFor ReversePolish entry failure := by
  rintro ⟨page, failed⟩
  cases failed

/-- Nor does it refuse to be read. -/
theorem ReversePolish.not_failsAtEnd (failure : Failure) : ¬ FailsAtEnd ReversePolish failure := by
  rintro ⟨page, position, failed⟩
  cases failed

/-- **The stack of pending operators is in order after any tokens, and operators are applied for
what they are.**  Whatever tokens a fresh machine is given, going on after failures and after the
end, and whatever its operand side:

- it keeps opening parentheses, signs and binary operators only, each with the strength of its
  token;
- of two neighbours, neither a parenthesis, the upper one binds more tightly, or both are signs;
- so entries between parentheses are at most two binary operators with signs on top;
- it applies nothing but signs and binary operators.

So neither a stack of values nor a page ever reports a misuse. -/
theorem pending_operators_are_ordered (tokens : List (Token × Nat)) :
    (∀ {σ β : Type} [OperandSide σ β] (side : σ) (waiting : List Pending),
      waiting = ((Machine.start side).after (β := β) tokens).waiting →
        (∀ entry ∈ waiting, entry.precedence = entry.token.precedence ∧
          (entry.token = .opening ∨ entry.token.isOperator = true)) ∧
        (∀ above upper lower below, waiting = above ++ upper :: lower :: below →
          upper.isBoundary = false → lower.isBoundary = false →
            lower.precedence < upper.precedence ∨
              (upper.isSign = true ∧ lower.isSign = true)) ∧
        (∀ above group below, waiting = above ++ group ++ below →
          (∀ entry ∈ group, entry.isBoundary = false) →
            ∃ signs binaries, group = signs ++ binaries ∧
              (∀ entry ∈ signs, entry.isSign = true) ∧
              (∀ entry ∈ binaries, entry.isBinary = true) ∧ binaries.length ≤ 2)) ∧
    (∀ {σ β : Type} [OperandSide σ β] (side : σ),
      ∀ step ∈ (Machine.start side).steps (β := β) tokens, ∀ entry, .apply entry ∈ step.calls →
        entry.token.isOperator = true) ∧
    (∀ stack : ValueStack, ∀ step ∈ (Machine.start stack).steps tokens,
      ∀ token arity position, step.answer ≠ .error (.misuse token arity position)) ∧
    (∀ page : ReversePolish, ∀ step ∈ (Machine.start page).steps tokens,
      ∀ token arity position, step.answer ≠ .error (.misuse token arity position)) := by
  refine ⟨?_, ?_, ?_, ?_⟩
  · rintro σ β _ side waiting rfl
    have inOrder : InOrder ((Machine.start side).after (β := β) tokens).waiting :=
      InOrder.after .nil tokens
    refine ⟨fun entry member => ?_, fun above upper lower below cut => ?_, ?_⟩
    · cases inOrder.proper entry member with
      | opening position => exact ⟨rfl, .inl rfl⟩
      | sign polarity position => exact ⟨rfl, .inr rfl⟩
      | binary op position => exact ⟨rfl, .inr rfl⟩
    · have chain := inOrder.chain
      rw [cut] at chain
      exact (List.isChain_cons_cons.mp chain.right_of_append).1
    · exact fun above group below cut inside => inOrder.exists_group cut inside
  · intro σ β _ side step made entry applied
    obtain ⟨token, position, isOperator, rfl⟩ := exists_operator_of_applied made applied
    exact isOperator
  · intro stack step made token arity position misused
    exact not_isMisuse_of_step made
      (fun _ _ isOperator fails => ValueStack.not_isMisuse_of_apply isOperator fails)
      ValueStack.not_isMisuse_of_result misused ⟨token, arity, position, rfl⟩
  · intro page step made token arity position misused
    exact not_isMisuse_of_step made
      (fun _ _ _ fails => absurd fails (ReversePolish.not_failsFor _ _))
      (fun fails => absurd fails (ReversePolish.not_failsAtEnd _)) misused
      ⟨token, arity, position, rfl⟩

end InfixArithmetic
