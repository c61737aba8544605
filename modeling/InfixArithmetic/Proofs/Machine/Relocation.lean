import InfixArithmetic.Proofs.Lexeme.Relocation
import InfixArithmetic.Proofs.Machine.Run

/-!
# Places are labels

Nothing is ever decided by a place.  A machine passes the places of tokens on to its pending
operators and to the failures that are about them, and no test looks at one.  So if every
place in a stream is replaced by another one, whatever the replacement, the run is the same
but for its places (`OperandSide.IgnoresPlaces.runFrom_relocate`).  Of an operand side this
asks that it uses places for its failures only, and both sides do
(`ValueStack.ignoresPlaces`, `ReversePolish.ignoresPlaces`).
-/

namespace InfixArithmetic

set_option autoImplicit false

variable (move : Nat → Nat)

/-! ## Failures in other places -/

/-- The same error in another place. -/
def GrammarError.relocate : GrammarError → GrammarError
  | .emptyExpression position => .emptyExpression (move position)
  | .missingOperand found position => .missingOperand found (move position)
  | .missingOperator found position => .missingOperator found (move position)
  | .unmatchedClosing position => .unmatchedClosing (move position)
  | .unclosedOpening position => .unclosedOpening (move position)
  | .emptyGroup position => .emptyGroup (move position)

/-- The same error in another place. -/
def ArithmeticError.relocate : ArithmeticError → ArithmeticError
  | .divisionByZero position => .divisionByZero (move position)
  | .moduloByZero position => .moduloByZero (move position)
  | .overflow position => .overflow (move position)

/-- The same failure in another place. -/
def Failure.relocate : Failure → Failure
  | .scan error => .scan (error.relocate move)
  | .grammar error => .grammar (error.relocate move)
  | .arithmetic error => .arithmetic (error.relocate move)
  | .misuse token arity position => .misuse token arity (move position)

@[simp] theorem GrammarError.position_relocate (error : GrammarError) :
    (error.relocate move).position = move error.position := by
  cases error <;> rfl

@[simp] theorem ArithmeticError.position_relocate (error : ArithmeticError) :
    (error.relocate move).position = move error.position := by
  cases error <;> rfl

@[simp] theorem Failure.position_relocate (failure : Failure) :
    (failure.relocate move).position = move failure.position := by
  cases failure <;> simp [relocate, position]

theorem Failure.relocate_relocate_of_inverse {move back : Nat → Nat} {failure : Failure}
    (inverse : back (move failure.position) = failure.position) :
    (failure.relocate move).relocate back = failure := by
  cases failure with
  | scan error => exact congrArg Failure.scan (ScanError.relocate_relocate_of_inverse inverse)
  | grammar error =>
      cases error <;> simpa [relocate, GrammarError.relocate, position, GrammarError.position]
        using inverse
  | arithmetic error =>
      cases error <;> simpa [relocate, ArithmeticError.relocate, position, ArithmeticError.position]
        using inverse
  | misuse token arity place => exact congrArg (Failure.misuse token arity) inverse

/-! ## Streams in other places -/

/-- The same item in another place. -/
def relocateItem : Item → Item
  | .ok placed => .ok (relocatePlaced move placed)
  | .error error => .error (error.relocate move)

theorem map_relocateItem_of_inverse {move back : Nat → Nat}
    (inverse : ∀ position, back (move position) = position) (stream : List Item) :
    (stream.map (relocateItem move)).map (relocateItem back) = stream := by
  have same : ∀ item, relocateItem back (relocateItem move item) = item := by
    intro item
    cases item with
    | ok placed => exact congrArg Except.ok (Prod.ext rfl (inverse placed.2))
    | error error =>
        exact congrArg Except.error (ScanError.relocate_relocate_of_inverse (inverse _))
  rw [List.map_map]
  exact List.map_id'' same stream

/-! ## Machines in other places -/

/-- The same entry in another place. -/
def Pending.relocate (entry : Pending) : Pending :=
  { entry with position := move entry.position }

@[simp] theorem Pending.isSign_relocate (entry : Pending) :
    (entry.relocate move).isSign = entry.isSign := rfl

/-- The same call in another place. -/
def Call.relocate : Call → Call
  | .take value position => .take value (move position)
  | .apply entry => .apply (entry.relocate move)
  | .result position => .result (move position)

section States

variable {σ α β : Type}

/-- The same unwinding in other places. -/
def Unwinding.relocate (unwinding : Unwinding σ) : Unwinding σ where
  side := unwinding.side
  applied := unwinding.applied.map (Pending.relocate move)
  waiting := unwinding.waiting.map (Pending.relocate move)
  failure := unwinding.failure.map (Failure.relocate move)

/-- The same machine in other places. -/
def Machine.relocate (machine : Machine σ) : Machine σ :=
  { machine with waiting := machine.waiting.map (Pending.relocate move) }

/-- The same step in other places. -/
def Step.relocate (step : Step σ α) : Step σ α where
  answer := step.answer.mapError (Failure.relocate move)
  calls := step.calls.map (Call.relocate move)
  machine := step.machine.relocate move

/-- The same run in other places. -/
def Run.relocate (run : Run β) : Run β where
  answer := run.answer.mapError (Failure.relocate move)
  calls := run.calls.map (List.map (Call.relocate move))

theorem Unwinding.calls_relocate (unwinding : Unwinding σ) :
    (unwinding.relocate move).calls = unwinding.calls.map (Call.relocate move) := by
  simp only [calls, relocate, List.map_map]
  rfl

theorem Token.misplacement_relocate (token : Token) (latest : Option Token) (position : Nat) :
    token.misplacement latest (move position)
      = (token.misplacement latest position).relocate move := by
  simp only [Token.misplacement]
  split
  · rfl
  · split <;> rfl

theorem Machine.halt_relocate (machine : Machine σ) (unwinding : Unwinding σ)
    (failure : Failure) :
    (machine.relocate move).halt (α := α) (unwinding.relocate move) (failure.relocate move)
      = (machine.halt unwinding failure).relocate move := by
  simp only [halt, Step.relocate, Unwinding.calls_relocate]
  rfl

theorem Machine.refuse_relocate (machine : Machine σ) (error : GrammarError) :
    (machine.relocate move).refuse (α := α) (error.relocate move)
      = (machine.refuse error).relocate move :=
  rfl

end States

/-- A side uses places for nothing but its failures. -/
structure OperandSide.IgnoresPlaces (σ β : Type) [OperandSide σ β] : Prop where
  take : ∀ (move : Nat → Nat) (side : σ) (value : Float) (position : Nat),
    OperandSide.take side value (move position) = OperandSide.take side value position
  apply : ∀ (move : Nat → Nat) (side : σ) (entry : Pending),
    OperandSide.apply side (entry.relocate move)
      = ((OperandSide.apply side entry).1.mapError (Failure.relocate move),
        (OperandSide.apply side entry).2)
  result : ∀ (move : Nat → Nat) (side : σ) (position : Nat),
    OperandSide.result side (move position)
      = ((OperandSide.result side position).1.mapError (Failure.relocate move),
        (OperandSide.result side position).2)

namespace OperandSide.IgnoresPlaces

variable {σ β : Type} [OperandSide σ β] (ignores : IgnoresPlaces σ β)
include ignores

/-! ## Steps -/

theorem unwind_relocate {test other : Pending → Bool}
    (same : ∀ entry : Pending, other (entry.relocate move) = test entry) (side : σ)
    (waiting : List Pending) :
    unwind other side (waiting.map (Pending.relocate move))
      = (unwind test side waiting).relocate move := by
  induction waiting generalizing side with
  | nil => rfl
  | cons top below ih =>
      rw [List.map_cons, unwind, unwind, same, ignores.apply]
      by_cases passes : test top = true
      · rw [if_pos passes, if_pos passes]
        cases applied : OperandSide.apply side top with
        | mk answer later =>
            cases answer with
            | ok =>
                simp only [Except.mapError, ih later]
                rfl
            | error failure => rfl
      · rw [if_neg passes, if_neg passes]
        rfl

theorem takeOperator_relocate (machine : Machine σ) (token : Token) (position : Nat) :
    (machine.relocate move).takeOperator (β := β) token (move position)
      = (machine.takeOperator token position).relocate move := by
  have unwound : unwind (·.goesBefore (.of token (move position))) (machine.relocate move).side
      (machine.relocate move).waiting
        = (unwind (·.goesBefore (.of token position)) machine.side machine.waiting).relocate move :=
    ignores.unwind_relocate move (fun _ => rfl) machine.side machine.waiting
  simp only [Machine.takeOperator, unwound]
  generalize unwind (·.goesBefore (.of token position)) machine.side machine.waiting = unwinding
  obtain ⟨side, applied, waiting, failure⟩ := unwinding
  cases failure with
  | some failure => exact machine.halt_relocate move _ failure
  | none =>
      simp only [Unwinding.calls_relocate]
      rfl

theorem unwindGroup_relocate (machine : Machine σ) :
    unwind (!·.isBoundary) (machine.relocate move).side (machine.relocate move).waiting
      = (unwind (!·.isBoundary) machine.side machine.waiting).relocate move :=
  ignores.unwind_relocate move (fun _ => rfl) machine.side machine.waiting

theorem leaveGroup_relocate (machine : Machine σ) (position : Nat) :
    (machine.relocate move).leaveGroup (β := β) (move position)
      = (machine.leaveGroup position).relocate move := by
  simp only [Machine.leaveGroup, ignores.unwindGroup_relocate]
  generalize unwind (!·.isBoundary) machine.side machine.waiting = unwinding
  obtain ⟨side, applied, waiting, failure⟩ := unwinding
  cases failure with
  | some failure => exact machine.halt_relocate move _ failure
  | none =>
      cases waiting with
      | nil => exact machine.halt_relocate move _ (.grammar (.unmatchedClosing position))
      | cons boundary below =>
          simp only [Unwinding.calls_relocate]
          rfl

theorem conclude_relocate (machine : Machine σ) (position : Nat) :
    (machine.relocate move).conclude (β := β) (move position)
      = (machine.conclude position).relocate move := by
  simp only [Machine.conclude, ignores.unwindGroup_relocate]
  generalize unwind (!·.isBoundary) machine.side machine.waiting = unwinding
  obtain ⟨side, applied, waiting, failure⟩ := unwinding
  cases failure with
  | some failure => exact machine.halt_relocate move _ failure
  | none =>
      cases waiting with
      | nil =>
          simp only [Unwinding.calls_relocate]
          simp only [Unwinding.relocate, ignores.result, Step.relocate, List.map_append]
          rfl
      | cons boundary below =>
          exact machine.halt_relocate move ⟨side, applied, below, none⟩
            (.grammar (.unclosedOpening boundary.position))

theorem atEnd_relocate (machine : Machine σ) (position : Nat) :
    (machine.relocate move).atEnd (β := β) (move position)
      = (machine.atEnd position).relocate move := by
  by_cases complete : machine.expectation = .operator
  · have completeThere : (machine.relocate move).expectation = .operator := complete
    rw [Machine.atEnd_of_placed completeThere, Machine.atEnd_of_placed complete,
      ignores.conclude_relocate]
  · have incompleteThere : (machine.relocate move).expectation ≠ .operator := complete
    rw [Machine.atEnd_of_misplaced incompleteThere, Machine.atEnd_of_misplaced complete,
      ← Machine.refuse_relocate, ← Token.misplacement_relocate]
    rfl

/-- **A step in other places is the same step in other places.** -/
theorem step_relocate (machine : Machine σ) (token : Token) (position : Nat) :
    (machine.relocate move).step (β := β) token (move position)
      = (machine.step token position).relocate move := by
  by_cases ended : token = .endOfInput
  · subst ended
    rw [Machine.step_endOfInput, Machine.step_endOfInput, ignores.atEnd_relocate]
    simp only [Step.map, Step.relocate]
    cases (machine.atEnd (β := β) position).answer <;> rfl
  by_cases placed : machine.expectation = token.place
  · have placedThere : (machine.relocate move).expectation = token.place := placed
    rw [Machine.step_of_placed placedThere, Machine.step_of_placed placed]
    cases token with
    | number value =>
        simp only [Machine.accept, Machine.takeNumber, ignores.take]
        rfl
    | opening => rfl
    | sign polarity => exact ignores.takeOperator_relocate move machine _ position
    | binary op => exact ignores.takeOperator_relocate move machine _ position
    | closing => exact ignores.leaveGroup_relocate move machine position
    | endOfInput => exact absurd rfl ended
  · have misplacedThere : (machine.relocate move).expectation ≠ token.place := placed
    rw [Machine.step_of_misplaced _ _ _ placed, Machine.step_of_misplaced _ _ _ misplacedThere,
      ← Machine.refuse_relocate, ← Token.misplacement_relocate]
    rfl

/-! ## Runs -/

/-- **A run over a stream in other places is the same run in other places.** -/
theorem runFrom_relocate (machine : Machine σ) (position : Nat) (stream : List Item) :
    runFrom (β := β) (machine.relocate move) (move position) (stream.map (relocateItem move))
      = (runFrom machine position stream).relocate move := by
  induction stream generalizing machine position with
  | nil =>
      rw [List.map_nil, runFrom_nil, runFrom_nil, ignores.atEnd_relocate]
      rfl
  | cons item rest ih =>
      obtain error | ⟨token, place⟩ := item
      · rfl
      have stepped := ignores.step_relocate move machine token place
      have answered := congrArg Step.answer stepped
      rw [List.map_cons]
      show runFrom (machine.relocate move) (move position)
        (.ok (token, move place) :: rest.map (relocateItem move)) = _
      cases answer : (machine.step (β := β) token place).answer with
      | error failure =>
          rw [Step.relocate, answer] at answered
          rw [runFrom_of_error answer, runFrom_of_error answered, stepped]
          rfl
      | ok result =>
          rw [Step.relocate, answer] at answered
          cases result with
          | some value =>
              rw [runFrom_of_some answer, runFrom_of_some answered, stepped]
              rfl
          | none =>
              rw [runFrom_of_none answer, runFrom_of_none answered, stepped, Step.relocate, ih]
              rfl

/-- It does not matter either where a stream that is not empty begins. -/
theorem run_relocate {stream : List Item} (nonempty : stream ≠ []) (side : σ) :
    run (β := β) side (stream.map (relocateItem move)) = (run side stream).relocate move := by
  rw [run, run, ← ignores.runFrom_relocate]
  exact runFrom_of_ne_nil (mt List.map_eq_nil_iff.mp nonempty) _ _ _

end OperandSide.IgnoresPlaces

/-! ## The two sides -/

theorem ReversePolish.ignoresPlaces : OperandSide.IgnoresPlaces ReversePolish (List Token) where
  take _ _ _ _ := rfl
  apply _ _ _ := rfl
  result _ _ _ := rfl

theorem BinaryOp.apply_relocate (op : BinaryOp) (left right : Float) (position : Nat) :
    op.apply left right (move position)
      = (op.apply left right position).mapError (ArithmeticError.relocate move) := by
  have refused : op.refusal? right (move position)
      = (op.refusal? right position).map (ArithmeticError.relocate move) := by
    rw [refusal?, refusal?]
    split
    · cases op <;> rfl
    · rfl
  rw [apply, apply, refused]
  cases op.refusal? right position with
  | some error => rfl
  | none =>
      simp only [Option.map_none]
      split <;> rfl

theorem Token.applyBinary_relocate (token : Token) (left right : Float) (position : Nat) :
    token.applyBinary left right (move position)
      = (token.applyBinary left right position).mapError (Failure.relocate move) := by
  cases token with
  | binary op =>
      simp only [applyBinary, op.apply_relocate]
      cases op.apply left right position <;> rfl
  | number | sign | opening | closing | endOfInput => rfl

theorem Token.applyUnary_relocate (token : Token) (operand : Float) (position : Nat) :
    token.applyUnary operand (move position)
      = (token.applyUnary operand position).mapError (Failure.relocate move) := by
  cases token <;> rfl

namespace ValueStack

theorem settle_relocate (stack : ValueStack) (result : Except Failure Float) :
    stack.settle (result.mapError (Failure.relocate move))
      = ((stack.settle result).1.mapError (Failure.relocate move), (stack.settle result).2) := by
  cases result <;> rfl

theorem ignoresPlaces : OperandSide.IgnoresPlaces ValueStack Float where
  take _ _ _ _ := rfl
  apply move stack entry := by
    obtain ⟨values⟩ := stack
    show ValueStack.apply ⟨values⟩ (entry.relocate move)
      = ((ValueStack.apply ⟨values⟩ entry).1.mapError _, (ValueStack.apply ⟨values⟩ entry).2)
    rw [apply, apply, Pending.isSign_relocate]
    by_cases sign : entry.isSign = true
    · rw [if_pos sign, if_pos sign]
      match values with
      | [] => rfl
      | operand :: below =>
          have applied := entry.token.applyUnary_relocate move operand entry.position
          exact (congrArg (settle ⟨below⟩) applied).trans (settle_relocate move ⟨below⟩ _)
    · rw [if_neg sign, if_neg sign]
      match values with
      | [] | [_] => rfl
      | right :: left :: below =>
          have applied := entry.token.applyBinary_relocate move left right entry.position
          exact (congrArg (settle ⟨below⟩) applied).trans (settle_relocate move ⟨below⟩ _)
  result move stack position := by
    obtain ⟨values⟩ := stack
    match values with
    | [] | [_] | _ :: _ :: _ => rfl

end ValueStack

end InfixArithmetic
