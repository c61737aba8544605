import InfixArithmetic.Machine.Basic

/-!
# Replaying calls

A step tells which calls it made to its operand side.  Replaying calls makes them
on a state of any side, one after another, up to the first failure.

What a step of the machine does can be said by a replay alone.  The pending
operators that an incoming token has applied are the ones at the top of the stack
that pass its test, whatever the operand side; if their replay succeeds, the step
goes on with what it was about, and if it fails, the step answers with that
failure.  The laws of `takeOperator`, `leaveGroup` and `conclude` below say so,
and nothing after them unfolds a step again.
-/

namespace InfixArithmetic

set_option autoImplicit false

variable {σ β : Type} [OperandSide σ β]

namespace OperandSide

/-! ## Replays -/

/-- Makes calls one after another up to the first failure; gives the state behind
them, or that failure. -/
def replay (state : σ) : List Call → Except Failure σ
  | [] => .ok state
  | call :: rest =>
      match perform state call with
      | (.ok _, state) => replay state rest
      | (.error failure, _) => .error failure

@[simp] theorem replay_nil (state : σ) : replay state [] = .ok state := rfl

theorem replay_apply_of_ok {state later : σ} {entry : Pending}
    (applied : apply state entry = (.ok (), later)) (rest : List Call) :
    replay state (.apply entry :: rest) = replay later rest := by
  simp only [replay, perform, applied]

theorem replay_apply_of_error {state later : σ} {entry : Pending} {failure : Failure}
    (applied : apply state entry = (.error failure, later)) (rest : List Call) :
    replay state (.apply entry :: rest) = .error failure := by
  simp only [replay, perform, applied]

theorem replay_append (state : σ) (front back : List Call) :
    replay state (front ++ back) = (replay state front).bind fun later => replay later back := by
  induction front generalizing state with
  | nil => rfl
  | cons call rest ih =>
      simp only [List.cons_append, replay]
      cases perform state call with
      | mk answer later =>
          cases answer with
          | ok value => exact ih later
          | error failure => rfl

theorem replay_append_of_ok {state later : σ} {front : List Call}
    (replayed : replay state front = .ok later) (back : List Call) :
    replay state (front ++ back) = replay later back := by
  rw [replay_append, replayed]
  rfl

theorem replay_append_of_error {state : σ} {front : List Call} {failure : Failure}
    (replayed : replay state front = .error failure) (back : List Call) :
    replay state (front ++ back) = .error failure := by
  rw [replay_append, replayed]
  rfl

theorem exists_of_replay_append_ok {state reached : σ} {front back : List Call}
    (replayed : replay state (front ++ back) = .ok reached) :
    ∃ middle, replay state front = .ok middle ∧ replay middle back = .ok reached := by
  rw [replay_append] at replayed
  cases first : replay state front with
  | ok middle =>
      rw [first] at replayed
      exact ⟨middle, rfl, replayed⟩
  | error failure =>
      rw [first] at replayed
      cases replayed

end OperandSide

open OperandSide

/-! ## Applying pending operators -/

/-- The calls that apply the pending operators at the top that pass a test. -/
def callsWhile (test : Pending → Bool) (waiting : List Pending) : List Call :=
  (waiting.takeWhile test).map .apply

theorem callsWhile_of_pass {test : Pending → Bool} {top : Pending} (passes : test top = true)
    (below : List Pending) :
    callsWhile test (top :: below) = .apply top :: callsWhile test below := by
  rw [callsWhile, List.takeWhile_cons_of_pos passes]
  rfl

theorem callsWhile_of_stop {test : Pending → Bool} {top : Pending} (stops : ¬ test top = true)
    (below : List Pending) : callsWhile test (top :: below) = [] := by
  rw [callsWhile, List.takeWhile_cons_of_neg stops]
  rfl

/-- **If the replay succeeds, unwinding applies everything that passes the test.** -/
theorem unwind_of_replay_ok {test : Pending → Bool} {side later : σ} {waiting : List Pending}
    (replayed : replay side (callsWhile test waiting) = .ok later) :
    unwind test side waiting
      = ⟨later, waiting.takeWhile test, waiting.dropWhile test, none⟩ := by
  induction waiting generalizing side with
  | nil =>
      cases replayed
      rfl
  | cons top below ih =>
      by_cases passes : test top = true
      · rw [callsWhile_of_pass passes] at replayed
        rw [List.takeWhile_cons_of_pos passes, List.dropWhile_cons_of_pos passes, unwind,
          if_pos passes]
        cases applied : apply side top with
        | mk answer next =>
            cases answer with
            | ok =>
                rw [replay_apply_of_ok applied] at replayed
                simp only [ih replayed]
            | error failure =>
                rw [replay_apply_of_error applied] at replayed
                cases replayed
      · rw [callsWhile_of_stop passes] at replayed
        cases replayed
        rw [List.takeWhile_cons_of_neg passes, List.dropWhile_cons_of_neg passes, unwind,
          if_neg passes]

/-- **If the replay fails, unwinding stops with the same failure.** -/
theorem unwind_of_replay_error {test : Pending → Bool} {side : σ} {waiting : List Pending}
    {failure : Failure} (replayed : replay side (callsWhile test waiting) = .error failure) :
    (unwind test side waiting).failure = some failure := by
  induction waiting generalizing side with
  | nil => cases replayed
  | cons top below ih =>
      by_cases passes : test top = true
      · rw [callsWhile_of_pass passes] at replayed
        rw [unwind, if_pos passes]
        cases applied : apply side top with
        | mk answer next =>
            cases answer with
            | ok =>
                rw [replay_apply_of_ok applied] at replayed
                exact ih replayed
            | error failure =>
                rw [replay_apply_of_error applied] at replayed
                cases replayed
                rfl
      · rw [callsWhile_of_stop passes] at replayed
        cases replayed

/-! ## The three steps that apply operators -/

namespace Machine

/-- The calls of an operator before it becomes pending. -/
def callsBefore (machine : Machine σ) (incoming : Pending) : List Call :=
  callsWhile (·.goesBefore incoming) machine.waiting

/-- The calls down to the innermost boundary. -/
def callsInside (machine : Machine σ) : List Call :=
  callsWhile (!·.isBoundary) machine.waiting

theorem takeOperator_of_replay_ok (machine : Machine σ) {token : Token} {position : Nat}
    {later : σ}
    (replayed : replay machine.side (machine.callsBefore (.of token position)) = .ok later) :
    machine.takeOperator token position =
      { answer := .ok none
        calls := machine.callsBefore (.of token position)
        machine := {
          side := later
          waiting := .of token position ::
            machine.waiting.dropWhile (·.goesBefore (.of token position))
          expectation := .operand
          latest := some token } } := by
  simp only [takeOperator, unwind_of_replay_ok replayed]
  rfl

theorem takeOperator_of_replay_error (machine : Machine σ) {token : Token} {position : Nat}
    {failure : Failure}
    (replayed : replay machine.side (machine.callsBefore (.of token position)) = .error failure) :
    (machine.takeOperator token position).answer = .error failure := by
  simp only [takeOperator, unwind_of_replay_error replayed]
  rfl

/-- A group is left when there is a boundary below what was applied. -/
theorem leaveGroup_of_replay_ok (machine : Machine σ) {later : σ} {boundary : Pending}
    {below : List Pending} (replayed : replay machine.side machine.callsInside = .ok later)
    (found : machine.waiting.dropWhile (!·.isBoundary) = boundary :: below) (position : Nat) :
    machine.leaveGroup position =
      { answer := .ok none
        calls := machine.callsInside
        machine := {
          side := later
          waiting := below
          expectation := .operator
          latest := some .closing } } := by
  simp only [leaveGroup, unwind_of_replay_ok replayed, found]
  rfl

/-- Without a boundary everything is applied, and then there is no group to leave. -/
theorem leaveGroup_of_unmatched (machine : Machine σ) {later : σ}
    (replayed : replay machine.side machine.callsInside = .ok later)
    (missing : machine.waiting.dropWhile (!·.isBoundary) = []) (position : Nat) :
    machine.leaveGroup position =
      { answer := .error (.grammar (.unmatchedClosing position))
        calls := machine.callsInside
        machine := { machine with side := later, waiting := [] } } := by
  simp only [leaveGroup, unwind_of_replay_ok replayed, missing]
  rfl

theorem leaveGroup_of_replay_error (machine : Machine σ) {failure : Failure}
    (replayed : replay machine.side machine.callsInside = .error failure) (position : Nat) :
    (machine.leaveGroup position).answer = .error failure := by
  simp only [leaveGroup, unwind_of_replay_error replayed]
  rfl

/-- Without a boundary the end asks for the result. -/
theorem conclude_of_replay_ok (machine : Machine σ) {later : σ}
    (replayed : replay machine.side machine.callsInside = .ok later)
    (missing : machine.waiting.dropWhile (!·.isBoundary) = []) (position : Nat) :
    machine.conclude position =
      { answer := (OperandSide.result later position).1
        calls := machine.callsInside ++ [.result position]
        machine := { machine with
          side := (OperandSide.result later position).2
          waiting := []
          latest := some .endOfInput } } := by
  simp only [conclude, unwind_of_replay_ok replayed, missing]
  rfl

/-- A boundary that is left over at the end is an unclosed parenthesis. -/
theorem conclude_of_unclosed (machine : Machine σ) {later : σ} {boundary : Pending}
    {below : List Pending} (replayed : replay machine.side machine.callsInside = .ok later)
    (found : machine.waiting.dropWhile (!·.isBoundary) = boundary :: below) (position : Nat) :
    machine.conclude position =
      { answer := .error (.grammar (.unclosedOpening boundary.position))
        calls := machine.callsInside
        machine := { machine with side := later, waiting := below } } := by
  simp only [conclude, unwind_of_replay_ok replayed, found]
  rfl

theorem conclude_of_replay_error (machine : Machine σ) {failure : Failure}
    (replayed : replay machine.side machine.callsInside = .error failure) (position : Nat) :
    (machine.conclude position).answer = .error failure := by
  simp only [conclude, unwind_of_replay_error replayed]
  rfl

end Machine

end InfixArithmetic
