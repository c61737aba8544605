import InfixArithmetic.Proofs.Sketch.Basic
import InfixArithmetic.Machine.Run

/-!
# The machine follows a sketch

The machine and a sketch that take the same tokens stay together: the pending
entries are those of the frames, an operand has to follow exactly when the sketch
has none, and the operand side is what the calls of the sketch make of the state
that it started from.  `Machine.Follows` says so.

It holds for every operand side, because all a side can do to the machine is to
fail.  A step that the sketch takes either succeeds, and the two are together
again, or answers with the failure of the replayed calls
(`Follows.step_of_replay_ok`, `Follows.step_of_replay_error`); a token that the
sketch does not take is an error (`Follows.step_of_none`).  So the answer of a run
over tokens is read off the expression that they form.
-/

namespace InfixArithmetic

set_option autoImplicit false

open OperandSide InfixArithmetic.Frame

/-! ## The tests of the machine on frames -/

theorem goesBefore_binary (op : BinaryOp) (position : Nat) (frame : Frame) :
    frame.pending.goesBefore (.of (.binary op) position) = op.rank.reaches frame.pending := by
  cases frame with
  | sign polarity place => cases op <;> rfl
  | operator other place left => cases op <;> cases other <;> rfl
  | group opening => cases op <;> rfl

theorem goesBefore_sign (polarity : Sign) (position : Nat) (frame : Frame) :
    frame.pending.goesBefore (.of (.sign polarity) position) = false := by
  cases frame with
  | sign other place => rfl
  | operator op place left => cases op <;> rfl
  | group opening => rfl

theorem not_isBoundary_pending (frame : Frame) :
    (!frame.pending.isBoundary) = Rank.sum.reaches frame.pending := by
  cases frame with
  | sign polarity place => rfl
  | operator op place left => cases op <;> rfl
  | group opening => rfl

theorem takeWhile_pending_congr {test : Pending → Bool} (other : Pending → Bool)
    (agree : ∀ frame : Frame, test frame.pending = other frame.pending) (frames : List Frame) :
    (frames.map pending).takeWhile test = (frames.map pending).takeWhile other := by
  induction frames with
  | nil => rfl
  | cons frame outer ih => rw [List.map_cons, List.takeWhile_cons, List.takeWhile_cons, agree, ih]

theorem dropWhile_pending_congr {test : Pending → Bool} (other : Pending → Bool)
    (agree : ∀ frame : Frame, test frame.pending = other frame.pending) (frames : List Frame) :
    (frames.map pending).dropWhile test = (frames.map pending).dropWhile other := by
  induction frames with
  | nil => rfl
  | cons frame outer ih => rw [List.map_cons, List.dropWhile_cons, List.dropWhile_cons, agree, ih]

variable {σ β : Type} [OperandSide σ β]

namespace Machine

/-- The machine has done what a sketch tells, from a state of its operand side on. -/
structure Follows (machine : Machine σ) (origin : σ) (sketch : Sketch) : Prop where
  waiting : machine.waiting = sketch.frames.map pending
  expectation : machine.expectation = sketch.expectation
  replayed : replay origin sketch.calls = .ok machine.side

theorem follows_start (side : σ) : (start side).Follows side {} :=
  ⟨rfl, rfl, rfl⟩

namespace Follows

variable {machine : Machine σ} {origin : σ} {sketch : Sketch}

theorem callsBefore_binary (follows : machine.Follows origin sketch) (op : BinaryOp)
    (position : Nat) :
    machine.callsBefore (.of (.binary op) position) = sketch.newCalls (.binary op) position := by
  rw [callsBefore, callsWhile, follows.waiting,
    takeWhile_pending_congr _ (goesBefore_binary op position)]
  rfl

theorem callsBefore_sign (follows : machine.Follows origin sketch) (polarity : Sign)
    (position : Nat) : machine.callsBefore (.of (.sign polarity) position) = [] := by
  rw [callsBefore, callsWhile, follows.waiting,
    takeWhile_pending_congr (fun _ => false) (goesBefore_sign polarity position)]
  cases sketch.frames <;> rfl

theorem callsInside_eq (follows : machine.Follows origin sketch) (position : Nat) :
    machine.callsInside = sketch.newCalls .closing position := by
  rw [callsInside, callsWhile, follows.waiting, takeWhile_pending_congr _ not_isBoundary_pending]
  rfl

theorem dropWhile_binary (follows : machine.Follows origin sketch) (op : BinaryOp)
    (position : Nat) (operand : Expression) :
    machine.waiting.dropWhile (·.goesBefore (.of (.binary op) position))
      = (settle op.rank sketch.frames operand).1.map pending := by
  rw [follows.waiting, dropWhile_pending_congr _ (goesBefore_binary op position), pending_settle]

theorem dropWhile_sign (follows : machine.Follows origin sketch) (polarity : Sign)
    (position : Nat) :
    machine.waiting.dropWhile (·.goesBefore (.of (.sign polarity) position))
      = sketch.frames.map pending := by
  rw [follows.waiting, dropWhile_pending_congr (fun _ => false) (goesBefore_sign polarity position)]
  cases sketch.frames <;> rfl

theorem dropWhile_boundary (follows : machine.Follows origin sketch) (operand : Expression) :
    machine.waiting.dropWhile (!·.isBoundary)
      = (settle .sum sketch.frames operand).1.map pending := by
  rw [follows.waiting, dropWhile_pending_congr _ not_isBoundary_pending, pending_settle]

theorem expectation_of_none (follows : machine.Follows origin sketch)
    (bare : sketch.operand = none) : machine.expectation = .operand := by
  rw [follows.expectation, Sketch.expectation, bare]

theorem expectation_of_some (follows : machine.Follows origin sketch) {operand : Expression}
    (found : sketch.operand = some operand) : machine.expectation = .operator := by
  rw [follows.expectation, Sketch.expectation, found]

/-- The side is where a longer replay goes on from. -/
theorem replay_append (follows : machine.Follows origin sketch) (added : List Call) :
    replay origin (sketch.calls ++ added) = replay machine.side added :=
  replay_append_of_ok follows.replayed added

/-! ## Steps -/

/-- **A step that the sketch takes keeps the two together**, provided that its calls
succeed. -/
theorem step_of_replay_ok (follows : machine.Follows origin sketch) {later : Sketch}
    {token : Token} {position : Nat} {reached : σ}
    (stepped : sketch.step token position = some later)
    (replayed : replay origin later.calls = .ok reached) :
    ∃ next, machine.step (β := β) token position
        = ⟨.ok none, sketch.newCalls token position, next⟩ ∧ next.Follows origin later := by
  have made := replayed
  rw [Sketch.calls_step stepped, follows.replay_append] at made
  obtain ⟨value, rfl, bare, rfl⟩ | ⟨polarity, rfl, bare, rfl⟩ | ⟨rfl, bare, rfl⟩ |
    ⟨op, operand, rfl, found, rfl⟩ | ⟨operand, opening, outer, body, rfl, found, settled, rfl⟩ :=
    Sketch.step_cases stepped
  · cases made
    exact ⟨_, step_of_placed (follows.expectation_of_none bare) position,
      follows.waiting, rfl, replayed⟩
  · cases made
    have quiet := follows.callsBefore_sign polarity position
    have still : replay machine.side (machine.callsBefore (.of (.sign polarity) position))
        = .ok machine.side := by
      rw [quiet]
      rfl
    have taken := machine.takeOperator_of_replay_ok still
    rw [quiet, follows.dropWhile_sign] at taken
    exact ⟨_, (step_of_placed (follows.expectation_of_none bare) position).trans taken,
      rfl, rfl, replayed⟩
  · cases made
    refine ⟨_, step_of_placed (follows.expectation_of_none bare) position, ?_, ?_, replayed⟩
    · exact congrArg (Pending.of .opening position :: ·) follows.waiting
    · exact follows.expectation_of_none bare
  · rw [← follows.callsBefore_binary] at made
    have taken := machine.takeOperator_of_replay_ok made
    rw [follows.callsBefore_binary, follows.dropWhile_binary op position operand] at taken
    exact ⟨_, (step_of_placed (follows.expectation_of_some found) position).trans taken,
      rfl, rfl, replayed⟩
  · rw [← follows.callsInside_eq] at made
    have dropped := follows.dropWhile_boundary operand
    rw [settled] at dropped
    have left := machine.leaveGroup_of_replay_ok made dropped position
    rw [follows.callsInside_eq position] at left
    exact ⟨_, (step_of_placed (follows.expectation_of_some found) position).trans left,
      rfl, rfl, replayed⟩

/-- A step that the sketch takes answers with the failure of its calls. -/
theorem step_of_replay_error (follows : machine.Follows origin sketch) {later : Sketch}
    {token : Token} {position : Nat} {failure : Failure}
    (stepped : sketch.step token position = some later)
    (replayed : replay origin later.calls = .error failure) :
    (machine.step (β := β) token position).answer = .error failure := by
  rw [Sketch.calls_step stepped, follows.replay_append] at replayed
  obtain ⟨value, rfl, bare, rfl⟩ | ⟨polarity, rfl, bare, rfl⟩ | ⟨rfl, bare, rfl⟩ |
    ⟨op, operand, rfl, found, rfl⟩ | ⟨operand, opening, outer, body, rfl, found, settled, rfl⟩ :=
    Sketch.step_cases stepped
  · cases replayed
  · cases replayed
  · cases replayed
  · rw [← follows.callsBefore_binary] at replayed
    rw [step_of_placed (follows.expectation_of_some found)]
    exact machine.takeOperator_of_replay_error replayed
  · rw [← follows.callsInside_eq] at replayed
    rw [step_of_placed (follows.expectation_of_some found)]
    exact machine.leaveGroup_of_replay_error replayed position

/-- A token other than the end that the sketch does not take is an error. -/
theorem step_of_none (follows : machine.Follows origin sketch) {token : Token} {position : Nat}
    (stuck : sketch.step token position = none) (notEnd : token ≠ .endOfInput) :
    ∃ failure, (machine.step (β := β) token position).answer = .error failure := by
  obtain misplaced | ⟨operand, rfl, found, noGroup⟩ := Sketch.cases_of_step_eq_none stuck notEnd
  · rw [← follows.expectation] at misplaced
    rw [step_of_misplaced machine token position misplaced]
    exact ⟨_, rfl⟩
  · have dropped := follows.dropWhile_boundary operand
    rw [noGroup] at dropped
    rw [step_of_placed (follows.expectation_of_some found)]
    cases replayed : replay machine.side machine.callsInside with
    | ok reached =>
        exact ⟨_, congrArg Step.answer (machine.leaveGroup_of_unmatched replayed dropped position)⟩
    | error failure => exact ⟨failure, machine.leaveGroup_of_replay_error replayed position⟩

/-! ## The end -/

/-- At the end of an expression the side is asked for its result. -/
theorem atEnd_of_replay_ok (follows : machine.Follows origin sketch) {whole : Expression}
    {reached : σ} (finished : sketch.finish = some whole)
    (replayed : replay origin whole.calls = .ok reached) (position : Nat) :
    (machine.atEnd position).answer = (OperandSide.result reached position).1 := by
  rw [Sketch.calls_finish finished position, follows.replay_append] at replayed
  change replay machine.side (sketch.newCalls .closing position) = _ at replayed
  rw [← follows.callsInside_eq] at replayed
  obtain ⟨operand, found, settled⟩ := Sketch.finish_cases finished
  have dropped := follows.dropWhile_boundary operand
  rw [settled] at dropped
  rw [atEnd_of_placed (follows.expectation_of_some found),
    machine.conclude_of_replay_ok replayed dropped position]

theorem atEnd_of_replay_error (follows : machine.Follows origin sketch) {whole : Expression}
    {failure : Failure} (finished : sketch.finish = some whole)
    (replayed : replay origin whole.calls = .error failure) (position : Nat) :
    (machine.atEnd position).answer = .error failure := by
  rw [Sketch.calls_finish finished position, follows.replay_append] at replayed
  change replay machine.side (sketch.newCalls .closing position) = _ at replayed
  rw [← follows.callsInside_eq] at replayed
  obtain ⟨operand, found, settled⟩ := Sketch.finish_cases finished
  rw [atEnd_of_placed (follows.expectation_of_some found)]
  exact machine.conclude_of_replay_error replayed position

/-- The end of what is no expression is an error. -/
theorem atEnd_of_none (follows : machine.Follows origin sketch) (unfinished : sketch.finish = none)
    (position : Nat) : ∃ failure, (machine.atEnd (β := β) position).answer = .error failure := by
  obtain bare | ⟨operand, opening, outer, found, inside⟩ :=
    Sketch.cases_of_finish_eq_none unfinished
  · have expected : machine.expectation ≠ .operator := by
      rw [follows.expectation_of_none bare]
      decide
    rw [atEnd_of_misplaced expected]
    exact ⟨_, rfl⟩
  · have dropped := follows.dropWhile_boundary operand
    rw [inside, List.map_cons] at dropped
    rw [atEnd_of_placed (follows.expectation_of_some found)]
    cases replayed : replay machine.side machine.callsInside with
    | ok reached =>
        exact ⟨_, congrArg Step.answer (machine.conclude_of_unclosed replayed dropped position)⟩
    | error failure => exact ⟨failure, machine.conclude_of_replay_error replayed position⟩

end Follows

end Machine

end InfixArithmetic
