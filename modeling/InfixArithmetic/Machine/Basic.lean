import InfixArithmetic.OperandSide.Basic

/-!
# The precedence machine

The machine reads an expression token by token and never builds a tree.  It keeps
a stack of pending operators and one bit of grammar, whether an operand or an
operator has to come next.  A token that is out of place is turned away before
anything else happens, so a refusal changes nothing.  There are three checks for
this: one for a number, an opening parenthesis, a sign and a binary operator, one
for a closing parenthesis and one for the end.  They are the arms of
`Machine.step`, and `Machine.step_eq` says that one guard stands for all of them.

A token in its place is accepted: a number goes to the operand side, an operator
first lets those pending operators be applied that bind at least as tightly, a
closing parenthesis has everything applied down to its opening one, and the end
has everything applied.

Applying can fail, and so can closing a group or the whole expression.  The
machine then stops where it is, with the entries already applied gone from the
stack, and goes on from there if it gets more tokens.

Every step tells which calls it made to its operand side, in order, the call that
failed included.
-/

namespace InfixArithmetic

set_option autoImplicit false

/-! ## States -/

/-- What has to come next. -/
inductive Expectation where
  /-- A number, a sign or an opening parenthesis. -/
  | operand
  /-- A binary operator, a closing parenthesis or the end. -/
  | operator
  deriving DecidableEq

/-- The machine between two tokens. -/
structure Machine (σ : Type) where
  /-- The operand side. -/
  side : σ
  /-- The pending operators, the latest first. -/
  waiting : List Pending := []
  expectation : Expectation := .operand
  /-- The token accepted last. -/
  latest : Option Token := none

/-- What came of one step: an answer, the calls made, and the machine after it. -/
structure Step (σ α : Type) where
  answer : Except Failure α
  calls : List Call
  machine : Machine σ

/-- The same step with another answer in case of success. -/
def Step.map {σ α γ : Type} (change : α → γ) (step : Step σ α) : Step σ γ where
  answer := match step.answer with
    | .ok value => .ok (change value)
    | .error failure => .error failure
  calls := step.calls
  machine := step.machine

/-! ## Applying pending operators -/

/-- What came of applying pending operators one after another. -/
structure Unwinding (σ : Type) where
  side : σ
  /-- The entries handed to the operand side, in order. -/
  applied : List Pending
  /-- The entries that are still pending. -/
  waiting : List Pending
  /-- The failure of the last entry applied, if it failed. -/
  failure : Option Failure

/-- The calls made while operators were applied. -/
def Unwinding.calls {σ : Type} (unwinding : Unwinding σ) : List Call :=
  unwinding.applied.map .apply

/-- Applies pending operators from the top for as long as they pass a test, and
stops at the first failure. -/
def unwind {σ β : Type} [OperandSide σ β] (test : Pending → Bool) (side : σ) :
    List Pending → Unwinding σ
  | [] => ⟨side, [], [], none⟩
  | top :: below =>
      if test top then
        match OperandSide.apply side top with
        | (.ok (), side) =>
            let later := unwind test side below
            { later with applied := top :: later.applied }
        | (.error failure, side) => ⟨side, [top], below, some failure⟩
      else
        ⟨side, [], top :: below, none⟩

namespace Machine

variable {σ β : Type}

/-- The machine before the first token. -/
def start (side : σ) : Machine σ where
  side := side

/-- A refusal: nothing is called and nothing changes. -/
def refuse {α : Type} (machine : Machine σ) (error : GrammarError) : Step σ α where
  answer := .error (.grammar error)
  calls := []
  machine := machine

/-- Lets a token pass if what it needs is expected, and otherwise says what is wrong with it. -/
def require (machine : Machine σ) (needed : Expectation) (token : Token) (position : Nat) :
    Except GrammarError Unit :=
  match needed, machine.expectation with
  | .operand, .operator => .error (.missingOperator token.mention position)
  | .operator, .operand => .error (.missingOperand token.mention position)
  | .operand, .operand | .operator, .operator => .ok ()

/-- A failure while operators were applied, or right after it: the machine stays
with what is left of the stack. -/
def halt {α : Type} (machine : Machine σ) (unwinding : Unwinding σ) (failure : Failure) :
    Step σ α where
  answer := .error failure
  calls := unwinding.calls
  machine := { machine with side := unwinding.side, waiting := unwinding.waiting }

/-! ## Tokens in their place -/

variable [OperandSide σ β]

/-- A number becomes an operand. -/
def takeNumber (machine : Machine σ) (value : Float) (position : Nat) : Step σ (Option β) where
  answer := .ok none
  calls := [.take value position]
  machine := { machine with
    side := OperandSide.take machine.side value position
    expectation := .operator
    latest := some (.number value) }

/-- An opening parenthesis waits as a boundary. -/
def enterGroup (machine : Machine σ) (position : Nat) : Step σ (Option β) where
  answer := .ok none
  calls := []
  machine := { machine with
    waiting := .of .opening position :: machine.waiting
    latest := some .opening }

/-- A sign or a binary operator becomes pending once those before it that have to
be are applied; an operand has to follow. -/
def takeOperator (machine : Machine σ) (token : Token) (position : Nat) : Step σ (Option β) :=
  let incoming := Pending.of token position
  let unwinding := unwind (·.goesBefore incoming) machine.side machine.waiting
  match unwinding.failure with
  | some failure => machine.halt unwinding failure
  | none =>
      { answer := .ok none
        calls := unwinding.calls
        machine := {
          side := unwinding.side
          waiting := incoming :: unwinding.waiting
          expectation := .operand
          latest := some token } }

/-- A closing parenthesis has the group applied and removes its boundary. -/
def leaveGroup (machine : Machine σ) (position : Nat) : Step σ (Option β) :=
  let unwinding := unwind (!·.isBoundary) machine.side machine.waiting
  match unwinding.failure, unwinding.waiting with
  | some failure, _ => machine.halt unwinding failure
  | none, [] => machine.halt unwinding (.grammar (.unmatchedClosing position))
  | none, _ :: below =>
      { answer := .ok none
        calls := unwinding.calls
        machine := {
          side := unwinding.side
          waiting := below
          expectation := .operator
          latest := some .closing } }

/-- The end has everything applied and asks for the result; a boundary that is
left over is removed and reported. -/
def conclude (machine : Machine σ) (position : Nat) : Step σ β :=
  let unwinding := unwind (!·.isBoundary) machine.side machine.waiting
  match unwinding.failure, unwinding.waiting with
  | some failure, _ => machine.halt unwinding failure
  | none, boundary :: below =>
      machine.halt { unwinding with waiting := below }
        (.grammar (.unclosedOpening boundary.position))
  | none, [] =>
      let result := OperandSide.result unwinding.side position
      { answer := result.1
        calls := unwinding.calls ++ [.result position]
        machine := { machine with
          side := result.2
          waiting := []
          latest := some .endOfInput } }

/-! ## Steps -/

/-- Ends the expression at a position.  The end is refused where an operand is expected, and
the expression is empty if no token was accepted before. -/
def atEnd (machine : Machine σ) (position : Nat) : Step σ β :=
  if machine.expectation = .operand then
    machine.refuse (if machine.latest.isNone then .emptyExpression position
      else .missingOperand Token.endOfInput.mention position)
  else
    machine.conclude position

/-- One step with a token.  The answer holds a result after the end and nothing
after any other token. -/
def step (machine : Machine σ) (token : Token) (position : Nat) : Step σ (Option β) :=
  match token with
  | .number value =>
      match machine.require .operand token position with
      | .error error => machine.refuse error
      | .ok () => machine.takeNumber value position
  | .opening =>
      match machine.require .operand token position with
      | .error error => machine.refuse error
      | .ok () => machine.enterGroup position
  | .sign _ =>
      match machine.require .operand token position with
      | .error error => machine.refuse error
      | .ok () => machine.takeOperator token position
  | .binary _ =>
      match machine.require .operator token position with
      | .error error => machine.refuse error
      | .ok () => machine.takeOperator token position
  | .closing =>
      if machine.expectation = .operand then
        machine.refuse (if machine.latest = some .opening then .emptyGroup position
          else .missingOperand token.mention position)
      else
        machine.leaveGroup position
  | .endOfInput => (machine.atEnd position).map some

/-- Steps with tokens one after another, going on after failures and after the
end. -/
def steps (machine : Machine σ) : List (Token × Nat) → List (Step σ (Option β))
  | [] => []
  | (token, position) :: rest =>
      let step : Step σ (Option β) := machine.step token position
      step :: step.machine.steps rest

end Machine

/-! ## One rule for the three checks -/

/-- What has to be expected for a token to be in its place. -/
def Token.place : Token → Expectation
  | .number _ | .opening | .sign _ => .operand
  | .binary _ | .closing | .endOfInput => .operator

/-- What is wrong with a token that is out of place, given the token accepted
before it. -/
def Token.misplacement (token : Token) (latest : Option Token) (position : Nat) :
    GrammarError :=
  match token.place with
  | .operand => .missingOperator token.mention position
  | .operator =>
      match token, latest with
      | .closing, some .opening => .emptyGroup position
      | .endOfInput, none => .emptyExpression position
      | _, _ => .missingOperand token.mention position

namespace Machine

variable {σ β : Type} [OperandSide σ β]

/-- What comes of a token that is in its place. -/
def accept (machine : Machine σ) (token : Token) (position : Nat) : Step σ (Option β) :=
  match token with
  | .number value => machine.takeNumber value position
  | .opening => machine.enterGroup position
  | .sign _ | .binary _ => machine.takeOperator token position
  | .closing => machine.leaveGroup position
  | .endOfInput => (machine.conclude position).map some

/-! ## Laws of a step -/

theorem require_of_expected {machine : Machine σ} {needed : Expectation}
    (expected : machine.expectation = needed) (token : Token) (position : Nat) :
    machine.require needed token position = .ok () := by
  unfold require
  rw [expected]
  cases needed <;> rfl

theorem require_operand_of_misplaced {machine : Machine σ}
    (misplaced : machine.expectation ≠ .operand) (token : Token) (position : Nat) :
    machine.require .operand token position
      = .error (.missingOperator token.mention position) := by
  unfold require
  cases expected : machine.expectation with
  | operand => exact absurd expected misplaced
  | operator => rfl

theorem require_operator_of_misplaced {machine : Machine σ}
    (misplaced : machine.expectation ≠ .operator) (token : Token) (position : Nat) :
    machine.require .operator token position
      = .error (.missingOperand token.mention position) := by
  unfold require
  cases expected : machine.expectation with
  | operand => rfl
  | operator => exact absurd expected misplaced

theorem atEnd_of_placed {machine : Machine σ} (placed : machine.expectation = .operator)
    (position : Nat) : machine.atEnd (β := β) position = machine.conclude position := by
  have expected : machine.expectation ≠ .operand := by
    rw [placed]
    exact Expectation.noConfusion
  exact if_neg expected

theorem atEnd_of_misplaced {machine : Machine σ} (misplaced : machine.expectation ≠ .operator)
    (position : Nat) :
    machine.atEnd (β := β) position
      = machine.refuse (Token.endOfInput.misplacement machine.latest position) := by
  cases expected : machine.expectation with
  | operand =>
      rw [atEnd, if_pos expected]
      cases machine.latest <;> rfl
  | operator => exact absurd expected misplaced

/-- **A token in its place is accepted.** -/
theorem step_of_placed {machine : Machine σ} {token : Token}
    (placed : machine.expectation = token.place) (position : Nat) :
    machine.step (β := β) token position = machine.accept token position := by
  cases token with
  | number value =>
      have expected : machine.expectation = .operand := placed
      rw [step, require_of_expected expected]
      rfl
  | opening =>
      have expected : machine.expectation = .operand := placed
      rw [step, require_of_expected expected]
      rfl
  | sign polarity =>
      have expected : machine.expectation = .operand := placed
      rw [step, require_of_expected expected]
      rfl
  | binary op =>
      have expected : machine.expectation = .operator := placed
      rw [step, require_of_expected expected]
      rfl
  | closing =>
      have expected : machine.expectation ≠ .operand := by
        rw [placed]
        exact Expectation.noConfusion
      exact if_neg expected
  | endOfInput => exact congrArg (Step.map some) (atEnd_of_placed placed position)

/-- **A misplaced token is turned away without a trace.** -/
theorem step_of_misplaced (machine : Machine σ) (token : Token) (position : Nat)
    (misplaced : machine.expectation ≠ token.place) :
    machine.step (β := β) token position
      = machine.refuse (token.misplacement machine.latest position) := by
  cases token with
  | number value =>
      rw [step, require_operand_of_misplaced misplaced]
      rfl
  | opening =>
      rw [step, require_operand_of_misplaced misplaced]
      rfl
  | sign polarity =>
      rw [step, require_operand_of_misplaced misplaced]
      rfl
  | binary op =>
      rw [step, require_operator_of_misplaced misplaced]
      rfl
  | closing =>
      cases expected : machine.expectation with
      | operand =>
          refine (if_pos expected).trans (congrArg machine.refuse ?_)
          unfold Token.misplacement
          cases latest : machine.latest with
          | none => rfl
          | some token => cases token <;> rfl
      | operator => exact absurd expected misplaced
  | endOfInput => exact congrArg (Step.map some) (atEnd_of_misplaced misplaced position)

/-- **One guard stands for the three checks.** -/
theorem step_eq (machine : Machine σ) (token : Token) (position : Nat) :
    machine.step (β := β) token position =
      if machine.expectation = token.place then machine.accept token position
      else machine.refuse (token.misplacement machine.latest position) := by
  split
  · exact step_of_placed ‹_› position
  · exact step_of_misplaced machine token position ‹_›

theorem step_endOfInput (machine : Machine σ) (position : Nat) :
    machine.step (β := β) .endOfInput position = (machine.atEnd position).map some :=
  rfl

end Machine

end InfixArithmetic
