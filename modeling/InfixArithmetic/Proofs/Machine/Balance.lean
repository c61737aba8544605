import InfixArithmetic.Proofs.Machine.Lockstep

/-!
# The balance of operands and operators

Every number is one operand more and every binary operator that is applied is one
operand less, so what an operand side holds can be counted without looking at it.
The count is balanced when there is one operand for each pending binary operator,
and one more when an operator has to come next (`Machine.Balanced`).

A balanced machine never applies an operator for which there are no operands: the
calls of a step carry the count from one number to another without asking for more
than there is (`Carries`), and the machine behind them is balanced again
(`Balanced.step`).  So it is along a run, and an expression ends with one operand
(`Balanced.runFrom`).
-/

namespace InfixArithmetic

set_option autoImplicit false

open OperandSide

/-! ## Pending operators -/

namespace Pending

/-- The entries that tokens can leave waiting, each with its own precedence. -/
inductive IsProper : Pending → Prop where
  | opening (position : Nat) : IsProper (.of .opening position)
  | sign (polarity : Sign) (position : Nat) : IsProper (.of (.sign polarity) position)
  | binary (op : BinaryOp) (position : Nat) : IsProper (.of (.binary op) position)

/-- Whether an entry takes two operands. -/
def isBinary (entry : Pending) : Bool :=
  match entry.token with
  | .binary _ => true
  | _ => false

/-- Nothing binds more tightly than a sign, so nothing goes before one. -/
theorem IsProper.not_goesBefore_sign {entry : Pending} (proper : entry.IsProper)
    (polarity : Sign) (position : Nat) :
    entry.goesBefore (.of (.sign polarity) position) = false := by
  cases proper with
  | opening place => rfl
  | sign other place => rfl
  | binary op place => cases op <;> rfl

@[simp] theorem countP_binary (op : BinaryOp) (position : Nat) (below : List Pending) :
    (of (.binary op) position :: below).countP isBinary = below.countP isBinary + 1 :=
  List.countP_cons_of_pos rfl

@[simp] theorem countP_sign (polarity : Sign) (position : Nat) (below : List Pending) :
    (of (.sign polarity) position :: below).countP isBinary = below.countP isBinary :=
  List.countP_cons_of_neg Bool.false_ne_true

@[simp] theorem countP_opening (position : Nat) (below : List Pending) :
    (of .opening position :: below).countP isBinary = below.countP isBinary :=
  List.countP_cons_of_neg Bool.false_ne_true

/-- What is found at the innermost boundary is an opening parenthesis. -/
theorem IsProper.eq_opening_of_dropWhile {waiting below : List Pending} {boundary : Pending}
    (proper : boundary.IsProper) (found : waiting.dropWhile (!·.isBoundary) = boundary :: below) :
    ∃ position, boundary = .of .opening position := by
  have stops := List.head?_dropWhile_not (!·.isBoundary) waiting
  rw [found] at stops
  cases proper with
  | opening position => exact ⟨position, rfl⟩
  | sign polarity position => cases stops
  | binary op position => cases stops

/-- Nothing reaches across a boundary. -/
theorem not_isBoundary_of_goesBefore {entry incoming : Pending}
    (before : entry.goesBefore incoming = true) : entry.isBoundary = false := by
  cases boundary : entry.isBoundary with
  | false => rfl
  | true =>
      rw [goesBefore, if_pos boundary] at before
      cases before

end Pending

/-- Applying proper entries from the top leaves one operand for each binary operator
below them, and one more. -/
theorem Carries.callsWhile {test : Pending → Bool} {waiting : List Pending}
    (inside : ∀ entry, test entry = true → entry.isBoundary = false)
    (proper : ∀ entry ∈ waiting, entry.IsProper) :
    Carries (waiting.countP Pending.isBinary + 1) (callsWhile test waiting)
      ((waiting.dropWhile test).countP Pending.isBinary + 1) := by
  induction waiting with
  | nil => exact .none 1
  | cons top below ih =>
      obtain ⟨properTop, properBelow⟩ := List.forall_mem_cons.mp proper
      by_cases passes : test top = true
      · rw [callsWhile_of_pass passes, List.dropWhile_cons_of_pos passes]
        cases properTop with
        | opening position => cases inside _ passes
        | sign polarity position =>
            rw [Pending.countP_sign]
            exact .sign polarity position (ih properBelow)
        | binary op position =>
            rw [Pending.countP_binary]
            exact .binary op position (ih properBelow)
      · rw [callsWhile_of_stop passes, List.dropWhile_cons_of_neg passes]
        exact .none _

/-! ## Balanced machines -/

/-- The operands that no pending operator is waiting with. -/
def Expectation.operands : Expectation → Nat
  | .operand => 0
  | .operator => 1

namespace Machine

/-- There is one operand for each pending binary operator, and one more when an operator
has to come next. -/
structure Balanced {σ : Type} (machine : Machine σ) (count : Nat) : Prop where
  proper : ∀ entry ∈ machine.waiting, entry.IsProper
  count_eq :
    count = machine.waiting.countP Pending.isBinary + machine.expectation.operands

theorem balanced_start {σ : Type} (side : σ) : (start side).Balanced 0 :=
  ⟨nofun, rfl⟩

theorem proper_dropWhile {waiting : List Pending} (test : Pending → Bool)
    (proper : ∀ entry ∈ waiting, entry.IsProper) :
    ∀ entry ∈ waiting.dropWhile test, entry.IsProper :=
  fun entry found => proper entry ((List.dropWhile_suffix test).mem found)

namespace Balanced

variable {machine : Machine ReversePolish} {count : Nat}

/-- Nothing is applied before a sign. -/
theorem callsBefore_sign (balanced : machine.Balanced count) (polarity : Sign) (position : Nat) :
    machine.callsBefore (.of (.sign polarity) position) = [] ∧
      machine.waiting.dropWhile (·.goesBefore (.of (.sign polarity) position))
        = machine.waiting := by
  rw [callsBefore]
  cases waits : machine.waiting with
  | nil => exact ⟨rfl, rfl⟩
  | cons top below =>
      have proper : top.IsProper := balanced.proper top (by rw [waits]; exact List.mem_cons_self)
      have stops := Bool.eq_false_iff.mp (proper.not_goesBefore_sign polarity position)
      refine ⟨callsWhile_of_stop ?_ below, List.dropWhile_cons_of_neg ?_⟩
      · exact stops
      · exact stops

/-- When an operator has to come next, applying what passes a test leaves one operand
more than there are binary operators pending below. -/
theorem carries_callsWhile (balanced : machine.Balanced count)
    (expected : machine.expectation = .operator) {test : Pending → Bool}
    (inside : ∀ entry, test entry = true → entry.isBoundary = false) :
    Carries count (callsWhile test machine.waiting)
      ((machine.waiting.dropWhile test).countP Pending.isBinary + 1) := by
  rw [balanced.count_eq, expected]
  exact .callsWhile inside balanced.proper

theorem carries_callsInside (balanced : machine.Balanced count)
    (expected : machine.expectation = .operator) :
    Carries count machine.callsInside
      ((machine.waiting.dropWhile (!·.isBoundary)).countP Pending.isBinary + 1) :=
  balanced.carries_callsWhile expected fun _ inside => (Bool.not_eq_true' _).mp inside

/-! ## Steps -/

/-- A binary operator takes the operand on its left from those at hand. -/
theorem takeBinary (balanced : machine.Balanced count)
    (expected : machine.expectation = .operator) (op : BinaryOp) (position : Nat) :
    ∃ final, Carries count
        (machine.takeOperator (β := List Token) (.binary op) position).calls final ∧
      (machine.takeOperator (β := List Token) (.binary op) position).machine.Balanced final := by
  obtain ⟨page, written⟩ :=
    machine.side.exists_replay (machine.callsBefore (.of (.binary op) position))
  rw [machine.takeOperator_of_replay_ok written]
  refine ⟨_, balanced.carries_callsWhile expected
    fun _ => Pending.not_isBoundary_of_goesBefore, ?_, ?_⟩
  · exact List.forall_mem_cons.mpr
      ⟨.binary op position, proper_dropWhile _ balanced.proper⟩
  · exact (Pending.countP_binary op position _).symm

theorem takeSign (balanced : machine.Balanced count)
    (expected : machine.expectation = .operand) (polarity : Sign) (position : Nat) :
    ∃ final, Carries count
        (machine.takeOperator (β := List Token) (.sign polarity) position).calls final ∧
      (machine.takeOperator (β := List Token) (.sign polarity) position).machine.Balanced
        final := by
  obtain ⟨page, written⟩ :=
    machine.side.exists_replay (machine.callsBefore (.of (.sign polarity) position))
  obtain ⟨quiet, kept⟩ := balanced.callsBefore_sign polarity position
  rw [machine.takeOperator_of_replay_ok written, quiet, kept]
  refine ⟨count, .none count, ?_, ?_⟩
  · exact List.forall_mem_cons.mpr ⟨.sign polarity position, balanced.proper⟩
  · rw [balanced.count_eq, expected]
    exact (Pending.countP_sign polarity position _).symm

/-- Leaving a group keeps its operand, and so does failing to leave one. -/
theorem leaveGroup (balanced : machine.Balanced count)
    (expected : machine.expectation = .operator) (position : Nat) :
    ∃ final, Carries count (machine.leaveGroup (β := List Token) position).calls final ∧
      (machine.leaveGroup (β := List Token) position).machine.Balanced final := by
  obtain ⟨page, written⟩ := machine.side.exists_replay machine.callsInside
  have carries := balanced.carries_callsInside expected
  have proper := proper_dropWhile (!·.isBoundary) balanced.proper
  cases dropped : machine.waiting.dropWhile (!·.isBoundary) with
  | nil =>
      rw [dropped] at carries
      rw [machine.leaveGroup_of_unmatched written dropped]
      refine ⟨1, carries, nofun, ?_⟩
      rw [expected]
      rfl
  | cons boundary below =>
      rw [dropped] at carries proper
      obtain ⟨properBoundary, properBelow⟩ := List.forall_mem_cons.mp proper
      obtain ⟨place, rfl⟩ := properBoundary.eq_opening_of_dropWhile dropped
      rw [machine.leaveGroup_of_replay_ok written dropped]
      rw [Pending.countP_opening] at carries
      exact ⟨_, carries, properBelow, rfl⟩

/-- **A step with any token but the end keeps the balance.** -/
theorem step (balanced : machine.Balanced count) {token : Token} (notEnd : token ≠ .endOfInput)
    (position : Nat) :
    ∃ final, Carries count (machine.step (β := List Token) token position).calls final ∧
      (machine.step (β := List Token) token position).machine.Balanced final := by
  by_cases placed : machine.expectation = token.place
  · rw [step_of_placed placed]
    cases token with
    | number value =>
        refine ⟨count + 1, .take value position (.none _), balanced.proper, ?_⟩
        rw [balanced.count_eq, placed]
        rfl
    | opening =>
        refine ⟨count, .none count, ?_, ?_⟩
        · exact List.forall_mem_cons.mpr ⟨.opening position, balanced.proper⟩
        · rw [balanced.count_eq]
          exact congrArg (· + _) (Pending.countP_opening position _).symm
    | sign polarity => exact balanced.takeSign placed polarity position
    | binary op => exact balanced.takeBinary placed op position
    | closing => exact balanced.leaveGroup placed position
    | endOfInput => exact absurd rfl notEnd
  · rw [step_of_misplaced machine token position placed]
    exact ⟨count, .none count, balanced⟩

theorem atEnd (balanced : machine.Balanced count) (position : Nat) :
    ∃ final, Carries count (runFrom (β := List Token) machine position []).handed final ∧
      ∀ written, (runFrom machine position []).answer = .ok written → final = 1 := by
  by_cases expected : machine.expectation = .operator
  · obtain ⟨page, replayed⟩ := machine.side.exists_replay machine.callsInside
    rw [machine.handed_atEnd expected, runFrom_nil, atEnd_of_placed expected]
    refine ⟨_, balanced.carries_callsInside expected, fun written answered => ?_⟩
    cases dropped : machine.waiting.dropWhile (!·.isBoundary) with
    | nil => rfl
    | cons boundary below =>
        rw [machine.conclude_of_unclosed replayed dropped] at answered
        cases answered
  · rw [runFrom_nil, atEnd_of_misplaced expected]
    refine ⟨count, .none count, fun written answered => ?_⟩
    cases answered

end Balanced

end Machine

/-! ## Runs -/

/-- **Along a run there are operands for every operator**, and one is left when the run
succeeds. -/
theorem Machine.Balanced.runFrom {machine : Machine ReversePolish} {count : Nat}
    (balanced : machine.Balanced count) (position : Nat) (stream : List Item) :
    ∃ final, Carries count (runFrom (β := List Token) machine position stream).handed final ∧
      ∀ written, (runFrom machine position stream).answer = .ok written → final = 1 := by
  induction stream generalizing machine count position with
  | nil => exact balanced.atEnd position
  | cons item rest ih =>
      obtain error | ⟨token, place⟩ := item
      · rw [runFrom_scanError]
        exact ⟨count, .none count, nofun⟩
      by_cases ended : token = .endOfInput
      · rw [ended, runFrom_endOfInput]
        exact balanced.atEnd place
      obtain ⟨middle, carries, balancedBehind⟩ := balanced.step ended place
      cases answered : (machine.step (β := List Token) token place).answer with
      | error failure =>
          rw [runFrom_of_error answered, Run.handed_singleton, carries.filter_handsOver]
          exact ⟨middle, carries, nofun⟩
      | ok result =>
          cases result with
          | some written => exact absurd (Machine.eq_endOfInput_of_some answered) ended
          | none =>
              obtain ⟨final, carriesBehind, single⟩ := ih balancedBehind place
              rw [runFrom_of_none answered, Run.handed_cons, carries.filter_handsOver]
              exact ⟨final, carries.append carriesBehind, single⟩

end InfixArithmetic
