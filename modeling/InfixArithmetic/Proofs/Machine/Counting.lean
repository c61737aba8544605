import InfixArithmetic.Proofs.Expression.Diagnosis
import InfixArithmetic.Proofs.Machine.Calls
import InfixArithmetic.Proofs.Machine.Refinement

/-!
# The balance along any run

A machine is balanced when it is fresh, and every step keeps the balance unless it fails
over the arithmetic or ends the expression.  This is so even where tokens are refused: a
closing parenthesis without a group has everything applied, and the end with a group left
open takes its boundary off, but an operand stays for each binary operator that is still
pending, and one more if an operator has to come next.

The count is not a count of calls only.  A stack of values holds so many values
(`ValueStack.counted`), and what a page holds is a sequence in reverse Polish order that
leaves so many operands (`ReversePolish.counted`).  So the stack is never asked for a value
that it does not have, and what a page hands out at the end is one operand.
-/

namespace InfixArithmetic

set_option autoImplicit false

open OperandSide

/-! ## Sequences in reverse Polish order -/

/-- Read behind a number of operands, a sequence has operands for every operator and sign,
and leaves another number of operands. -/
inductive PolishForm : Nat → List Token → Nat → Prop where
  | done (count : Nat) : PolishForm count [] count
  | number {count final : Nat} {rest : List Token} (value : Float)
      (later : PolishForm (count + 1) rest final) :
    PolishForm count (.number value :: rest) final
  | sign {count final : Nat} {rest : List Token} (polarity : Sign)
      (later : PolishForm (count + 1) rest final) :
    PolishForm (count + 1) (.sign polarity :: rest) final
  | binary {count final : Nat} {rest : List Token} (op : BinaryOp)
      (later : PolishForm (count + 1) rest final) :
    PolishForm (count + 2) (.binary op :: rest) final

namespace Token

/-- Whether a token is a number. -/
def isNumber : Token → Bool
  | .number _ => true
  | .binary _ | .sign _ | .opening | .closing | .endOfInput => false

/-- Whether a token is a binary operator. -/
def isBinary : Token → Bool
  | .binary _ => true
  | .number _ | .sign _ | .opening | .closing | .endOfInput => false

end Token

namespace PolishForm

theorem append {count middle final : Nat} {front back : List Token}
    (first : PolishForm count front middle) (second : PolishForm middle back final) :
    PolishForm count (front ++ back) final := by
  induction first with
  | done => exact second
  | number value later ih => exact .number value (ih second)
  | sign polarity later ih => exact .sign polarity (ih second)
  | binary op later ih => exact .binary op (ih second)

/-- Every number is one operand more and every binary operator one less. -/
theorem count_eq {count final : Nat} {tokens : List Token} (form : PolishForm count tokens final) :
    count + tokens.countP Token.isNumber = tokens.countP Token.isBinary + final := by
  induction form with
  | done => simp
  | number value later ih | sign polarity later ih | binary op later ih =>
      simp only [List.countP_cons, Token.isNumber, Token.isBinary]
      simp only [Bool.false_eq_true, if_true, if_false]
      omega

/-- There are no parentheses in reverse Polish order, and no end. -/
theorem mem_ne {count final : Nat} {tokens : List Token} (form : PolishForm count tokens final) :
    ∀ token ∈ tokens, token ≠ .opening ∧ token ≠ .closing ∧ token ≠ .endOfInput := by
  induction form with
  | done => exact List.forall_mem_nil _
  | number value later ih => exact List.forall_mem_cons.mpr ⟨⟨nofun, nofun, nofun⟩, ih⟩
  | sign polarity later ih => exact List.forall_mem_cons.mpr ⟨⟨nofun, nofun, nofun⟩, ih⟩
  | binary op later ih => exact List.forall_mem_cons.mpr ⟨⟨nofun, nofun, nofun⟩, ih⟩

end PolishForm

/-- What calls write has operands for every operator if the calls have. -/
theorem Carries.polishForm {count final : Nat} {calls : List Call}
    (carries : Carries count calls final) :
    PolishForm count (calls.flatMap Call.written) final := by
  induction carries with
  | none count => exact .done count
  | take value position later ih => exact .number value ih
  | sign polarity position later ih => exact .sign polarity ih
  | binary op position later ih => exact .binary op ih

/-! ## Sides that hold so many operands -/

section Counted

variable {σ β : Type} [OperandSide σ β]

/-- A way to say how many operands a side holds.  Calls change the number as they carry it,
unless the arithmetic fails, and a single operand is a result. -/
structure OperandSide.Counted (holds : σ → Nat → Prop) : Prop where
  calls : ∀ {side : σ} {count final : Nat} {calls : List Call}, Carries count calls final →
    holds side count →
      (∃ error, replay side calls = .error (.arithmetic error)) ∨
        ∃ later, replay side calls = .ok later ∧ holds later final
  result : ∀ {side : σ}, holds side 1 → ∀ position,
    ∃ value, (OperandSide.result side position).1 = .ok value

end Counted

/-- A stack of values holds as many operands as it has values. -/
theorem ValueStack.counted :
    OperandSide.Counted fun (stack : ValueStack) count => stack.values.length = count where
  calls := by
    intro stack count final calls carries size
    obtain failed | ⟨later, replayed, length, -⟩ := replay_of_carries carries stack size
    · exact .inl failed
    · exact .inr ⟨later, replayed, length⟩
  result := by
    rintro ⟨values⟩ single position
    obtain ⟨value, rfl⟩ := List.length_eq_one_iff.mp single
    exact ⟨value, rfl⟩

/-- A page holds as many operands as its tokens leave. -/
theorem ReversePolish.counted :
    OperandSide.Counted fun (page : ReversePolish) count => PolishForm 0 page.tokens count where
  calls := by
    intro page count final calls carries form
    obtain ⟨later, replayed, tokens⟩ := replay_of_carries carries page
    refine .inr ⟨later, replayed, ?_⟩
    rw [tokens]
    exact form.append carries.polishForm
  result := fun {page} _ _ => ⟨page.tokens, rfl⟩

/-! ## Steps that keep the balance -/

/-- A step that neither fails over the arithmetic nor ends the expression. -/
structure Step.IsQuiet {σ β : Type} (step : Step σ (Option β)) : Prop where
  noArithmetic : ∀ error, step.answer ≠ .error (.arithmetic error)
  noResult : ∀ result, step.answer ≠ .ok (some result)

namespace Step.IsQuiet

variable {σ β : Type} {step : Step σ (Option β)}

theorem of_accepted (accepted : step.answer = .ok none) : step.IsQuiet := by
  constructor <;> rw [accepted] <;> exact fun _ => nofun

theorem of_refused {error : GrammarError} (refused : step.answer = .error (.grammar error)) :
    step.IsQuiet := by
  constructor <;> rw [refused] <;> exact fun _ => nofun

end Step.IsQuiet

namespace Machine.Balanced

variable {σ β : Type} [OperandSide σ β] {holds : σ → Nat → Prop} {machine : Machine σ}
  {count : Nat}

/-- The balance is one of the stack and the expectation, whatever the operand side. -/
theorem withSide {τ : Type} (balanced : machine.Balanced count) (side : τ) :
    (machine.withSide side).Balanced count :=
  ⟨balanced.proper, balanced.count_eq⟩

/-- The end of an expression fails over the arithmetic, or it finds a single operand, or it
finds an open group and keeps the balance. -/
theorem conclude_cases (balanced : machine.Balanced count) (counted : Counted holds)
    (held : holds machine.side count) (expected : machine.expectation = .operator)
    (position : Nat) :
    (∃ error, (machine.conclude (β := β) position).answer = .error (.arithmetic error)) ∨
      (∃ later, holds later 1 ∧
        (machine.conclude position).answer = (OperandSide.result later position).1) ∨
      (∃ error, (machine.conclude (β := β) position).answer = .error (.grammar error)) ∧
        ∃ final, holds (machine.conclude (β := β) position).machine.side final ∧
          (machine.conclude (β := β) position).machine.Balanced final := by
  have carries := (balanced.withSide ({} : ReversePolish)).carries_callsInside expected
  have proper := proper_dropWhile (!·.isBoundary) balanced.proper
  obtain ⟨error, failed⟩ | ⟨later, replayed, heldLater⟩ := counted.calls carries held
  · exact .inl ⟨error, machine.conclude_of_replay_error failed position⟩
  · refine .inr ?_
    change replay machine.side machine.callsInside = _ at replayed
    change holds later ((machine.waiting.dropWhile (!·.isBoundary)).countP Pending.isBinary + 1)
      at heldLater
    cases dropped : machine.waiting.dropWhile (!·.isBoundary) with
    | nil =>
        rw [dropped] at heldLater
        refine .inl ⟨later, heldLater, ?_⟩
        rw [machine.conclude_of_replay_ok replayed dropped]
    | cons boundary below =>
        rw [dropped] at heldLater proper
        obtain ⟨properBoundary, properBelow⟩ := List.forall_mem_cons.mp proper
        obtain ⟨place, rfl⟩ := properBoundary.eq_opening_of_dropWhile dropped
        rw [Pending.countP_opening] at heldLater
        rw [machine.conclude_of_unclosed replayed dropped]
        refine .inr ⟨⟨_, rfl⟩, _, heldLater, properBelow, ?_⟩
        rw [expected]
        rfl

theorem endOfInput_of_quiet (balanced : machine.Balanced count) (counted : Counted holds)
    (held : holds machine.side count) {position : Nat}
    (quiet : (machine.step (β := β) .endOfInput position).IsQuiet) :
    ∃ final, holds (machine.step (β := β) .endOfInput position).machine.side final ∧
      (machine.step (β := β) .endOfInput position).machine.Balanced final := by
  rw [step_endOfInput] at quiet ⊢
  by_cases expected : machine.expectation = .operator
  · rw [atEnd_of_placed expected] at quiet ⊢
    obtain ⟨error, failed⟩ | ⟨later, single, answered⟩ | ⟨-, kept⟩ :=
      balanced.conclude_cases counted held expected position
    · refine absurd ?_ (quiet.noArithmetic error)
      rw [Step.map, failed]
    · obtain ⟨value, result⟩ := counted.result single position
      refine absurd ?_ (quiet.noResult value)
      rw [Step.map, answered, result]
    · exact kept
  · rw [atEnd_of_misplaced expected]
    exact ⟨count, held, balanced⟩

/-- **A quiet step keeps the balance**, whatever the token and however it is answered.  It is told
by the step of a page, where the balance is known to be kept. -/
theorem step_of_quiet (balanced : machine.Balanced count) (counted : Counted holds)
    (held : holds machine.side count) {token : Token} {position : Nat}
    (quiet : (machine.step (β := β) token position).IsQuiet) :
    ∃ final, holds (machine.step (β := β) token position).machine.side final ∧
      (machine.step (β := β) token position).machine.Balanced final := by
  by_cases ended : token = .endOfInput
  · subst ended
    exact balanced.endOfInput_of_quiet counted held quiet
  · obtain ⟨final, carries, balancedBehind⟩ :=
      (balanced.withSide ({} : ReversePolish)).step ended position
    have told := (machine.withSide ({} : ReversePolish)).step_foretells (γ := β) machine.side
      ended position
    obtain ⟨error, failed⟩ | ⟨later, replayed, heldLater⟩ := counted.calls carries held
    · exact absurd (told.failed failed) (quiet.noArithmetic error)
    · have made : machine.step (β := β) token position = _ := told.made replayed
      rw [made]
      exact ⟨final, heldLater, balancedBehind.withSide later⟩

/-- **Along quiet steps the balance is kept.** -/
theorem after_of_quiet (balanced : machine.Balanced count) (counted : Counted holds)
    (held : holds machine.side count) {tokens : List (Token × Nat)}
    (quiet : ∀ step ∈ machine.steps (β := β) tokens, step.IsQuiet) :
    ∃ final, holds (machine.after tokens).side final ∧ (machine.after tokens).Balanced final := by
  induction tokens generalizing machine count with
  | nil => exact ⟨count, held, balanced⟩
  | cons placed rest ih =>
      obtain ⟨token, position⟩ := placed
      obtain ⟨first, others⟩ := List.forall_mem_cons.mp quiet
      obtain ⟨middle, heldBehind, balancedBehind⟩ := balanced.step_of_quiet counted held first
      exact ih balancedBehind heldBehind others

end Machine.Balanced

/-! ## Calls that find what they take -/

namespace ValueStack

/-- A stack has the values that a call takes: one for a sign, two for a binary operator, and
for the result exactly one. -/
def Supplies (stack : ValueStack) : Call → Prop
  | .take _ _ => True
  | .apply entry => (if entry.isSign then 1 else 2) ≤ stack.values.length
  | .result _ => stack.values.length = 1

/-- Calls find what they take, each on the stack that the ones before it leave.  Nothing is
called behind a call that fails. -/
inductive Supplied : ValueStack → List Call → Prop where
  | none (stack : ValueStack) : Supplied stack []
  | last {stack : ValueStack} {call : Call} (supplies : stack.Supplies call) :
    Supplied stack [call]
  | next {stack later : ValueStack} {call : Call} {rest : List Call} {result : Option Float}
      (supplies : stack.Supplies call) (made : perform stack call = (.ok result, later))
      (others : Supplied later rest) :
    Supplied stack (call :: rest)

theorem Supplied.append {stack later : ValueStack} {front back : List Call}
    (supplied : stack.Supplied front) (replayed : replay stack front = .ok later)
    (others : later.Supplied back) : stack.Supplied (front ++ back) := by
  induction supplied with
  | none stack =>
      cases replayed
      exact others
  | @last stack call supplies =>
      rw [replay] at replayed
      cases made : perform stack call with
      | mk answer middle =>
          rw [made] at replayed
          cases answer with
          | error failure => cases replayed
          | ok result =>
              cases replayed
              exact .next supplies made others
  | next supplies made _ ih =>
      simp only [replay, made] at replayed
      exact .next supplies made (ih replayed)

/-- Applying proper entries from the top finds a value for each sign and two for each
binary operator. -/
theorem supplied_unwind {test : Pending → Bool} {waiting : List Pending} {stack : ValueStack}
    (inside : ∀ entry, test entry = true → entry.isBoundary = false)
    (proper : ∀ entry ∈ waiting, entry.IsProper)
    (size : stack.values.length = waiting.countP Pending.isBinary + 1) :
    stack.Supplied (unwind test stack waiting).calls := by
  induction waiting generalizing stack with
  | nil => exact .none stack
  | cons top below ih =>
      obtain ⟨properTop, properBelow⟩ := List.forall_mem_cons.mp proper
      by_cases passes : test top = true
      · obtain ⟨values⟩ := stack
        cases properTop with
        | opening position => cases inside _ passes
        | sign polarity position =>
            rw [Pending.countP_sign] at size
            match values, size with
            | operand :: rest, size =>
                have applied := apply_sign ⟨rest⟩ operand polarity position
                rw [calls_unwind_of_ok passes applied]
                refine .next ?_ (perform_apply_of_ok applied) (ih properBelow size)
                exact Nat.le_add_left 1 rest.length
        | binary op position =>
            rw [Pending.countP_binary] at size
            match values, size with
            | right :: left :: rest, size =>
                have applied := apply_binary ⟨rest⟩ left right op position
                have supplies : (⟨right :: left :: rest⟩ : ValueStack).Supplies
                    (.apply (.of (.binary op) position)) :=
                  Nat.le_add_left 2 rest.length
                cases result : op.apply left right position with
                | ok value =>
                    rw [result] at applied
                    rw [calls_unwind_of_ok passes applied]
                    exact .next supplies (perform_apply_of_ok applied)
                      (ih properBelow (Nat.succ.inj size))
                | error error =>
                    rw [result] at applied
                    rw [calls_unwind_of_error passes applied]
                    exact .last supplies
      · rw [unwind, if_neg passes]
        exact .none stack

end ValueStack

namespace Machine.Balanced

variable {machine : Machine ValueStack}

/-- At the end every entry finds its values, and the result finds exactly one. -/
theorem supplied_conclude (balanced : machine.Balanced machine.side.values.length)
    (expected : machine.expectation = .operator) (position : Nat) :
    machine.side.Supplied (machine.conclude (β := Float) position).calls := by
  have size := balanced.count_eq
  rw [expected] at size
  have supplied := ValueStack.supplied_unwind (fun _ => not_isBoundary_of_not) balanced.proper size
  have carries := (balanced.withSide ({} : ReversePolish)).carries_callsInside expected
  cases replayed : replay machine.side machine.callsInside with
  | error failure =>
      rw [machine.calls_conclude_of_replay_error replayed]
      exact supplied
  | ok later =>
      rw [unwind_of_replay_ok replayed] at supplied
      cases dropped : machine.waiting.dropWhile (!·.isBoundary) with
      | nil =>
          rw [machine.conclude_of_replay_ok replayed dropped]
          refine supplied.append replayed (.last ?_)
          change Carries _ machine.callsInside
            ((machine.waiting.dropWhile (!·.isBoundary)).countP Pending.isBinary + 1) at carries
          rw [dropped] at carries
          obtain ⟨error, failed⟩ | ⟨other, made, single⟩ := ValueStack.counted.calls carries rfl
          · rw [replayed] at failed
            cases failed
          · rw [replayed] at made
            cases made
            exact single
      | cons boundary below =>
          rw [machine.conclude_of_unclosed replayed dropped]
          exact supplied

/-- **Every call of a step finds what it takes.** -/
theorem supplied_step (balanced : machine.Balanced machine.side.values.length) (token : Token)
    (position : Nat) :
    machine.side.Supplied (machine.step (β := Float) token position).calls := by
  by_cases placed : machine.expectation = token.place
  · have size := balanced.count_eq
    rw [placed] at size
    rw [step_of_placed placed]
    cases token with
    | number value => exact .last trivial
    | opening => exact .none _
    | sign polarity =>
        obtain ⟨quiet, -⟩ :=
          (balanced.withSide ({} : ReversePolish)).callsBefore_sign polarity position
        have still : replay machine.side (machine.callsBefore (.of (.sign polarity) position))
            = .ok machine.side := congrArg (replay machine.side) quiet
        rw [accept, machine.takeOperator_of_replay_ok still]
        exact quiet ▸ .none _
    | binary op =>
        rw [accept, calls_takeOperator]
        exact ValueStack.supplied_unwind (fun _ => Pending.not_isBoundary_of_goesBefore)
          balanced.proper size
    | closing =>
        rw [accept, calls_leaveGroup]
        exact ValueStack.supplied_unwind (fun _ => not_isBoundary_of_not) balanced.proper size
    | endOfInput => exact balanced.supplied_conclude placed position
  · rw [step_of_misplaced machine token position placed]
    exact .none _

end Machine.Balanced

/-! ## Any run of a fresh machine -/

namespace Machine

/-- A stack of values has a value for each pending binary operator, and one more when an
operator has to come next. -/
theorem balanced_values_of_quiet {tokens : List (Token × Nat)}
    (quiet : ∀ step ∈ (start ({} : ValueStack)).steps tokens, step.IsQuiet) :
    ((start ({} : ValueStack)).after tokens).Balanced
      ((start ({} : ValueStack)).after tokens).side.values.length := by
  obtain ⟨final, rfl, balanced⟩ :=
    (balanced_start ({} : ValueStack)).after_of_quiet ValueStack.counted rfl quiet
  exact balanced

theorem balanced_page_of_quiet {tokens : List (Token × Nat)}
    (quiet : ∀ step ∈ (start ({} : ReversePolish)).steps tokens, step.IsQuiet) :
    ∃ count, PolishForm 0 ((start ({} : ReversePolish)).after tokens).side.tokens count ∧
      ((start ({} : ReversePolish)).after tokens).Balanced count :=
  (balanced_start ({} : ReversePolish)).after_of_quiet ReversePolish.counted (.done 0) quiet

theorem Balanced.polishForm_of_written {machine : Machine ReversePolish} {count : Nat}
    (balanced : machine.Balanced count) (held : PolishForm 0 machine.side.tokens count)
    {position : Nat} {written : List Token}
    (answered : (machine.step .endOfInput position).answer = .ok (some written)) :
    PolishForm 0 written 1 := by
  rw [step_endOfInput] at answered
  by_cases expected : machine.expectation = .operator
  · rw [atEnd_of_placed expected, Step.map] at answered
    obtain ⟨error, failed⟩ | ⟨later, single, result⟩ | ⟨⟨error, failed⟩, -⟩ :=
      balanced.conclude_cases ReversePolish.counted held expected position
    · rw [failed] at answered
      cases answered
    · rw [result] at answered
      cases answered
      exact single
    · rw [failed] at answered
      cases answered
  · rw [atEnd_of_misplaced expected] at answered
    cases answered

end Machine

/-- No run finds more than one value at its end. -/
theorem valueRun_ne_missingOperator_end (stream : List Item) (position : Nat) :
    (valueRun stream).answer
      ≠ .error (.grammar (.missingOperator Token.endOfInput.mention position)) := by
  intro failed
  obtain ⟨error, -, answered⟩ | ⟨stack, -, outcome⟩ := valueRun_cases stream
  · rw [answered] at failed
    cases failed
  obtain ⟨failure, -, refused, answered⟩ | ⟨written, value, -, -, -, answered⟩ := outcome
  · rw [failed] at answered
    cases answered
    obtain ⟨front, token, place, rest, -, -, diagnosis, -⟩ := diagnosis_of_polishRun refused
    generalize same : Token.endOfInput.mention = found at diagnosis
    cases diagnosis with
    | missingOperator behind complete starts =>
        refine Token.mention_ne_endOfInput ?_ same.symm
        rintro rfl
        cases starts
  · rw [answered] at failed
    cases failed

/-- **Operands balance operators along any run.**  Tokens come in any order and the machine
goes on behind refusals, as long as the arithmetic does not fail and no end succeeds.  A
stack of values has a value for each pending binary operator, and one more when an operator
has to come next; so every call finds what it takes.  The numbers on a page outnumber its
binary operators by as many; so what it hands out has operands for every operator and
leaves one, without any parenthesis or end in it.  And no evaluation is ever refused for
values that are left over. -/
theorem operands_balance_operators :
    (∀ tokens : List (Token × Nat),
      (∀ step ∈ (Machine.start ({} : ValueStack)).steps tokens, step.IsQuiet) →
      ((Machine.start ({} : ValueStack)).after tokens).side.values.length
        = ((Machine.start ({} : ValueStack)).after tokens).waiting.countP Pending.isBinary
          + ((Machine.start ({} : ValueStack)).after tokens).expectation.operands ∧
      ∀ token position, ((Machine.start ({} : ValueStack)).after tokens).side.Supplied
        (((Machine.start ({} : ValueStack)).after tokens).step (β := Float) token
          position).calls) ∧
    (∀ tokens : List (Token × Nat),
      (∀ step ∈ (Machine.start ({} : ReversePolish)).steps tokens, step.IsQuiet) →
      ((Machine.start ({} : ReversePolish)).after tokens).side.tokens.countP Token.isNumber
        = ((Machine.start ({} : ReversePolish)).after tokens).side.tokens.countP Token.isBinary
          + (((Machine.start ({} : ReversePolish)).after tokens).waiting.countP Pending.isBinary
            + ((Machine.start ({} : ReversePolish)).after tokens).expectation.operands) ∧
      ∀ position written,
        (((Machine.start ({} : ReversePolish)).after tokens).step .endOfInput position).answer
          = .ok (some written) →
        PolishForm 0 written 1 ∧
          ∀ token ∈ written, token ≠ .opening ∧ token ≠ .closing ∧ token ≠ .endOfInput) ∧
    ∀ (stream : List Item) (position : Nat),
      (valueRun stream).answer
        ≠ .error (.grammar (.missingOperator Token.endOfInput.mention position)) := by
  refine ⟨fun tokens quiet => ?_, fun tokens quiet => ?_, valueRun_ne_missingOperator_end⟩
  · have balanced := Machine.balanced_values_of_quiet quiet
    exact ⟨balanced.count_eq, balanced.supplied_step⟩
  · obtain ⟨count, form, balanced⟩ := Machine.balanced_page_of_quiet quiet
    refine ⟨?_, fun position written answered => ?_⟩
    · rw [← balanced.count_eq, ← form.count_eq, Nat.zero_add]
    · have handedOut := balanced.polishForm_of_written form answered
      exact ⟨handedOut, handedOut.mem_ne⟩

/-- The tokens of `1)+(2` with an end behind them: the closing parenthesis closes nothing,
and the end finds a group open. -/
def twiceRefusedTokens : List (Token × Nat) :=
  [(.number 1, 0), (.closing, 1), (.binary .add, 2), (.opening, 3), (.number 2, 4),
    (.endOfInput, 5)]

/-- Behind both refusals there are two values for the addition, and a second end finds
`1 2 +` on the page. -/
theorem operands_balance_behind_refusals :
    ((∀ step ∈ (Machine.start ({} : ValueStack)).steps twiceRefusedTokens, step.IsQuiet) ∧
      ((Machine.start ({} : ValueStack)).after twiceRefusedTokens).side.values.length = 2) ∧
    (∀ step ∈ (Machine.start ({} : ReversePolish)).steps twiceRefusedTokens, step.IsQuiet) ∧
      PolishForm 0 [.number 1, .number 2, .binary .add] 1 := by
  have quietValues :
      ∀ step ∈ (Machine.start ({} : ValueStack)).steps twiceRefusedTokens, step.IsQuiet := by
    simp only [twiceRefusedTokens, Machine.steps, List.forall_mem_cons]
    exact ⟨.of_accepted rfl, .of_refused rfl, .of_accepted rfl, .of_accepted rfl,
      .of_accepted rfl, .of_refused rfl, List.forall_mem_nil _⟩
  have quietPage :
      ∀ step ∈ (Machine.start ({} : ReversePolish)).steps twiceRefusedTokens, step.IsQuiet := by
    simp only [twiceRefusedTokens, Machine.steps, List.forall_mem_cons]
    exact ⟨.of_accepted rfl, .of_refused rfl, .of_accepted rfl, .of_accepted rfl,
      .of_accepted rfl, .of_refused rfl, List.forall_mem_nil _⟩
  obtain ⟨values, page, -⟩ := operands_balance_operators
  exact ⟨⟨quietValues, (values _ quietValues).1⟩, quietPage, ((page _ quietPage).2 6 _ rfl).1⟩

end InfixArithmetic
