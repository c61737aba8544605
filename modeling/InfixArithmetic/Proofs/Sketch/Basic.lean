import InfixArithmetic.Expression.Grammar
import InfixArithmetic.Proofs.Machine.Replay

/-!
# Sketches of expressions

What the precedence machine has read of an expression is a tree with one place
open at its right edge.  A sketch is that tree, cut into frames along the path to
the open place: a frame is a sign, an operator with its left operand, or an open
parenthesis, and every frame stands around the next one.  Behind the innermost
frame there is either nothing yet, so an operand has to follow, or an operand.

The machine forgets the trees and keeps one pending entry for each frame.  A
sketch takes tokens by the same rules and forgets nothing, so it says at any time
which tokens were read (`Sketch.tokens`), which calls were made (`Sketch.calls`)
and which tree results (`Sketch.finish`).  Completing an operand with the frames
around it is `Frame.settle`: it moves tokens and calls from the frames into the
operand, and the calls it adds apply the entries it takes off the stack.
-/

namespace InfixArithmetic

set_option autoImplicit false

/-! ## Ranks -/

/-- How tightly the operators of a rank bind; a sign makes a unit. -/
def Rank.strength : Rank → Nat
  | .sum => 1
  | .product => 2
  | .unit => 3

/-- The rank of a right operand. -/
def Rank.tighter : Rank → Rank
  | .sum => .product
  | .product | .unit => .unit

theorem Rank.sum_le (rank : Rank) : Rank.sum.strength ≤ rank.strength := by
  cases rank <;> decide

theorem Rank.le_unit (rank : Rank) : rank.strength ≤ Rank.unit.strength := by
  cases rank <;> decide

theorem Rank.le_tighter (rank : Rank) : rank.strength ≤ rank.tighter.strength := by
  cases rank <;> decide

/-- A rank that binds less than another one binds at most as its right operands do. -/
theorem Rank.strength_tighter_le {looser rank : Rank} (less : looser.strength < rank.strength) :
    looser.tighter.strength ≤ rank.strength := by
  revert less
  cases looser <;> cases rank <;> decide

theorem Rank.strength_lt_tighter {rank : Rank} (notUnit : rank ≠ .unit) :
    rank.strength < rank.tighter.strength := by
  cases rank with
  | sum | product => decide
  | unit => exact absurd rfl notUnit

theorem BinaryOp.rank_ne_unit (op : BinaryOp) : op.rank ≠ .unit := by
  cases op <;> decide

/-- The calls that an expression leads to: those of its operands from left to right,
then the one that applies its operator or sign. -/
def Expression.calls : Expression → List Call
  | .number value position => [.take value position]
  | .signed polarity position operand =>
      operand.calls ++ [.apply (.of (.sign polarity) position)]
  | .binary op position left right =>
      left.calls ++ right.calls ++ [.apply (.of (.binary op) position)]
  | .group _ body _ => body.calls

/-! ## Frames -/

/-- What stands around an open place. -/
inductive Frame where
  | sign (polarity : Sign) (position : Nat)
  | operator (op : BinaryOp) (position : Nat) (left : Expression)
  | group (opening : Nat)

/-- Whether a pending entry binds at least as tightly as a rank. -/
def Rank.reaches (rank : Rank) (entry : Pending) : Bool :=
  rank.strength ≤ entry.precedence

namespace Frame

/-- The entry that stands for a frame on the stack of pending operators. -/
def pending : Frame → Pending
  | .sign polarity position => .of (.sign polarity) position
  | .operator op position _ => .of (.binary op) position
  | .group opening => .of .opening opening

/-- The tokens of a frame, all of them before the open place. -/
def tokens : Frame → List (Token × Nat)
  | .sign polarity position => [(.sign polarity, position)]
  | .operator op position left => left.tokens ++ [(.binary op, position)]
  | .group opening => [(.opening, opening)]

/-- The calls that the complete parts of a frame have led to. -/
def calls : Frame → List Call
  | .operator _ _ left => left.calls
  | .sign _ _ | .group _ => []

/-- The tokens of frames, the innermost of which comes first in the list. -/
def allTokens : List Frame → List (Token × Nat)
  | [] => []
  | frame :: outer => allTokens outer ++ frame.tokens

/-- The calls of frames. -/
def allCalls : List Frame → List Call
  | [] => []
  | frame :: outer => allCalls outer ++ frame.calls

/-- The rank that the open place calls for. -/
def hole : List Frame → Rank
  | [] | .group _ :: _ => .sum
  | .sign _ _ :: _ => .unit
  | .operator op _ _ :: _ => op.rank.tighter

/-- Fills the open place of a sign or an operator.  A group is filled by its closing
parenthesis and not before. -/
def fill : Frame → Expression → Expression
  | .sign polarity position, operand => .signed polarity position operand
  | .operator op position left, operand => .binary op position left operand
  | .group _, operand => operand

/-- Completes an operand with the frames around it that bind at least as tightly as
a rank; no rank reaches across an open parenthesis. -/
def settle (rank : Rank) : List Frame → Expression → List Frame × Expression
  | [], operand => ([], operand)
  | frame :: outer, operand =>
      if rank.reaches frame.pending then settle rank outer (frame.fill operand)
      else (frame :: outer, operand)

/-! ## Which frames a rank reaches -/

@[simp] theorem reaches_sign (rank : Rank) (polarity : Sign) (position : Nat) :
    rank.reaches (Frame.sign polarity position).pending = true := by
  cases rank <;> rfl

@[simp] theorem reaches_operator (rank : Rank) (op : BinaryOp) (position : Nat)
    (left : Expression) :
    rank.reaches (Frame.operator op position left).pending
      = decide (rank.strength ≤ op.rank.strength) := by
  cases op <;> rfl

@[simp] theorem reaches_group (rank : Rank) (opening : Nat) :
    rank.reaches (Frame.group opening).pending = false := by
  cases rank <;> rfl

@[simp] theorem settle_nil (rank : Rank) (operand : Expression) :
    settle rank [] operand = ([], operand) := rfl

theorem settle_of_reaches {rank : Rank} {frame : Frame}
    (reached : rank.reaches frame.pending = true) (outer : List Frame) (operand : Expression) :
    settle rank (frame :: outer) operand = settle rank outer (frame.fill operand) :=
  if_pos reached

theorem settle_of_not_reaches {rank : Rank} {frame : Frame}
    (beyond : ¬ rank.reaches frame.pending = true) (outer : List Frame) (operand : Expression) :
    settle rank (frame :: outer) operand = (frame :: outer, operand) :=
  if_neg beyond

/-! ## What completing an operand does -/

theorem tokens_fill {rank : Rank} {frame : Frame} (reached : rank.reaches frame.pending = true)
    (operand : Expression) : (frame.fill operand).tokens = frame.tokens ++ operand.tokens := by
  cases frame with
  | sign polarity position => rfl
  | operator op position left =>
      rw [tokens, List.append_assoc]
      rfl
  | group opening =>
      rw [reaches_group] at reached
      cases reached

theorem calls_fill {rank : Rank} {frame : Frame} (reached : rank.reaches frame.pending = true)
    (operand : Expression) :
    (frame.fill operand).calls = frame.calls ++ operand.calls ++ [.apply frame.pending] := by
  cases frame with
  | sign polarity position => rfl
  | operator op position left => rfl
  | group opening =>
      rw [reaches_group] at reached
      cases reached

theorem tokens_settle (rank : Rank) (frames : List Frame) (operand : Expression) :
    allTokens (settle rank frames operand).1 ++ (settle rank frames operand).2.tokens
      = allTokens frames ++ operand.tokens := by
  induction frames generalizing operand with
  | nil => rfl
  | cons frame outer ih =>
      by_cases reached : rank.reaches frame.pending = true
      · rw [settle_of_reaches reached, ih, tokens_fill reached, allTokens, List.append_assoc]
      · rw [settle_of_not_reaches reached]

/-- The frames that are left start at the first one that the rank does not reach. -/
theorem pending_settle (rank : Rank) (frames : List Frame) (operand : Expression) :
    (settle rank frames operand).1.map pending
      = (frames.map pending).dropWhile rank.reaches := by
  induction frames generalizing operand with
  | nil => rfl
  | cons frame outer ih =>
      by_cases reached : rank.reaches frame.pending = true
      · rw [settle_of_reaches reached, ih, List.map_cons, List.dropWhile_cons_of_pos reached]
      · rw [settle_of_not_reaches reached, List.map_cons, List.dropWhile_cons_of_neg reached]

/-- The operand gains the calls that apply the frames it is completed with. -/
theorem calls_settle (rank : Rank) (frames : List Frame) (operand : Expression) :
    allCalls (settle rank frames operand).1 ++ (settle rank frames operand).2.calls
      = allCalls frames ++ operand.calls ++ callsWhile rank.reaches (frames.map pending) := by
  induction frames generalizing operand with
  | nil => exact (List.append_nil _).symm
  | cons frame outer ih =>
      by_cases reached : rank.reaches frame.pending = true
      · rw [settle_of_reaches reached, ih, calls_fill reached, allCalls, List.map_cons,
          callsWhile_of_pass reached]
        simp only [List.append_assoc, List.cons_append, List.nil_append]
      · rw [settle_of_not_reaches reached, List.map_cons, callsWhile_of_stop reached,
          List.append_nil]

/-- Completing at the loosest rank stops at an open parenthesis or nowhere. -/
theorem settle_sum_cases (frames : List Frame) (operand : Expression) :
    (settle .sum frames operand).1 = [] ∨
      ∃ opening outer, (settle .sum frames operand).1 = .group opening :: outer := by
  induction frames generalizing operand with
  | nil => exact .inl rfl
  | cons frame outer ih =>
      cases frame with
      | sign polarity position => exact ih _
      | operator op position left =>
          rw [settle_of_reaches]
          · exact ih _
          · rw [reaches_operator, decide_eq_true (Rank.sum_le _)]
      | group opening => exact .inr ⟨opening, outer, rfl⟩

end Frame

open InfixArithmetic.Frame

/-! ## Sketches -/

/-- An expression that is read up to some token. -/
structure Sketch where
  /-- The frames around the open place, the innermost first. -/
  frames : List Frame := []
  /-- The operand in the open place, if one was read. -/
  operand : Option Expression := none

namespace Sketch

/-- The tokens that were read. -/
def tokens (sketch : Sketch) : List (Token × Nat) :=
  allTokens sketch.frames ++ (sketch.operand.map Expression.tokens).getD []

/-- The calls that were made. -/
def calls (sketch : Sketch) : List Call :=
  allCalls sketch.frames ++ (sketch.operand.map Expression.calls).getD []

/-- The calls that one more token leads to. -/
def newCalls (sketch : Sketch) (token : Token) (position : Nat) : List Call :=
  match token with
  | .number value => [.take value position]
  | .binary op => callsWhile op.rank.reaches (sketch.frames.map pending)
  | .closing | .endOfInput => callsWhile Rank.sum.reaches (sketch.frames.map pending)
  | .sign _ | .opening => []

/-- Takes one more token, unless no expression goes on with it. -/
def step (sketch : Sketch) (token : Token) (position : Nat) : Option Sketch :=
  match token, sketch.operand with
  | .number value, none => some ⟨sketch.frames, some (.number value position)⟩
  | .sign polarity, none => some ⟨.sign polarity position :: sketch.frames, none⟩
  | .opening, none => some ⟨.group position :: sketch.frames, none⟩
  | .binary op, some operand =>
      let settled := settle op.rank sketch.frames operand
      some ⟨.operator op position settled.2 :: settled.1, none⟩
  | .closing, some operand =>
      match settle .sum sketch.frames operand with
      | (.group opening :: outer, body) => some ⟨outer, some (.group opening body position)⟩
      | _ => none
  | _, _ => none

/-- What has to follow. -/
def expectation (sketch : Sketch) : Expectation :=
  match sketch.operand with
  | none => .operand
  | some _ => .operator

/-- Takes tokens one after another. -/
def steps (sketch : Sketch) : List (Token × Nat) → Option Sketch
  | [] => some sketch
  | (token, position) :: rest => (sketch.step token position).bind fun later => later.steps rest

/-- The expression at the end of the input, unless an operand is missing or a
parenthesis is still open. -/
def finish (sketch : Sketch) : Option Expression :=
  match sketch.operand.map (settle .sum sketch.frames) with
  | some ([], whole) => some whole
  | _ => none

/-- The expression that tokens form. -/
def parse (tokens : List (Token × Nat)) : Option Expression :=
  (({} : Sketch).steps tokens).bind finish

theorem steps_append (sketch : Sketch) (front back : List (Token × Nat)) :
    sketch.steps (front ++ back) = (sketch.steps front).bind fun later => later.steps back := by
  induction front generalizing sketch with
  | nil => rfl
  | cons placed rest ih =>
      obtain ⟨token, position⟩ := placed
      simp only [List.cons_append, steps]
      cases sketch.step token position with
      | none => rfl
      | some later => exact ih later

/-! ## What a step can be -/

/-- **Everything that a step can do.**  A token that starts an operand finds none; an
operator and a closing parenthesis find one and complete it. -/
theorem step_cases {sketch later : Sketch} {token : Token} {position : Nat}
    (stepped : sketch.step token position = some later) :
    (∃ value, token = .number value ∧ sketch.operand = none ∧
      later = ⟨sketch.frames, some (.number value position)⟩) ∨
    (∃ polarity, token = .sign polarity ∧ sketch.operand = none ∧
      later = ⟨.sign polarity position :: sketch.frames, none⟩) ∨
    (token = .opening ∧ sketch.operand = none ∧
      later = ⟨.group position :: sketch.frames, none⟩) ∨
    (∃ op operand, token = .binary op ∧ sketch.operand = some operand ∧
      later = ⟨.operator op position (settle op.rank sketch.frames operand).2 ::
        (settle op.rank sketch.frames operand).1, none⟩) ∨
    (∃ operand opening outer body, token = .closing ∧ sketch.operand = some operand ∧
      settle .sum sketch.frames operand = (.group opening :: outer, body) ∧
      later = ⟨outer, some (.group opening body position)⟩) := by
  obtain ⟨frames, operand⟩ := sketch
  cases token <;> cases operand <;> try cases stepped
  case number.none value => exact .inl ⟨value, rfl, rfl, rfl⟩
  case sign.none polarity => exact .inr (.inl ⟨polarity, rfl, rfl, rfl⟩)
  case opening.none => exact .inr (.inr (.inl ⟨rfl, rfl, rfl⟩))
  case binary.some op operand => exact .inr (.inr (.inr (.inl ⟨op, operand, rfl, rfl, rfl⟩)))
  case closing.some operand =>
    simp only [step] at stepped
    split at stepped
    · rename_i opening outer body settled
      cases stepped
      exact .inr (.inr (.inr (.inr ⟨operand, opening, outer, body, rfl, rfl, settled, rfl⟩)))
    · cases stepped

/-- A token that is not taken is out of place, or is a closing parenthesis without an
open one. -/
theorem cases_of_step_eq_none {sketch : Sketch} {token : Token} {position : Nat}
    (stuck : sketch.step token position = none) (notEnd : token ≠ .endOfInput) :
    sketch.expectation ≠ token.place ∨
      ∃ operand, token = .closing ∧ sketch.operand = some operand ∧
        (settle .sum sketch.frames operand).1 = [] := by
  by_cases placed : sketch.expectation = token.place
  · refine .inr ?_
    obtain ⟨frames, operand⟩ := sketch
    cases operand with
    | none =>
        cases token with
        | number value | sign polarity | opening => cases stuck
        | binary op | closing | endOfInput => cases placed
    | some operand =>
        cases token with
        | number value | sign polarity | opening => cases placed
        | binary op => cases stuck
        | endOfInput => exact absurd rfl notEnd
        | closing =>
            refine ⟨operand, rfl, rfl, ?_⟩
            obtain empty | ⟨opening, outer, inside⟩ := settle_sum_cases frames operand
            · exact empty
            · have settled : settle .sum frames operand
                  = (.group opening :: outer, (settle .sum frames operand).2) :=
                Prod.ext inside rfl
              simp only [step] at stuck
              rw [settled] at stuck
              cases stuck
  · exact .inl placed

/-- A finished sketch has an operand that takes up all frames. -/
theorem finish_cases {sketch : Sketch} {whole : Expression}
    (finished : sketch.finish = some whole) :
    ∃ operand, sketch.operand = some operand ∧ settle .sum sketch.frames operand = ([], whole) := by
  obtain ⟨frames, operand⟩ := sketch
  cases operand with
  | none => cases finished
  | some operand =>
      simp only [finish, Option.map_some] at finished
      split at finished
      · rename_i settled
        cases finished
        exact ⟨operand, rfl, Option.some.inj settled⟩
      · cases finished

/-- An unfinished sketch has no operand, or an open parenthesis. -/
theorem cases_of_finish_eq_none {sketch : Sketch} (unfinished : sketch.finish = none) :
    sketch.operand = none ∨
      ∃ operand opening outer, sketch.operand = some operand ∧
        (settle .sum sketch.frames operand).1 = .group opening :: outer := by
  obtain ⟨frames, operand⟩ := sketch
  cases operand with
  | none => exact .inl rfl
  | some operand =>
      refine .inr ⟨operand, ?_⟩
      obtain empty | ⟨opening, outer, inside⟩ := settle_sum_cases frames operand
      · have settled : settle .sum frames operand = ([], (settle .sum frames operand).2) :=
          Prod.ext empty rfl
        rw [finish, Option.map_some, settled] at unfinished
        cases unfinished
      · exact ⟨opening, outer, rfl, inside⟩

/-! ## What a step adds -/

theorem tokens_step {sketch later : Sketch} {token : Token} {position : Nat}
    (stepped : sketch.step token position = some later) :
    later.tokens = sketch.tokens ++ [(token, position)] := by
  obtain ⟨frames, operand⟩ := sketch
  obtain ⟨value, rfl, rfl, rfl⟩ | ⟨polarity, rfl, rfl, rfl⟩ | ⟨rfl, rfl, rfl⟩ |
    ⟨op, operand, rfl, rfl, rfl⟩ | ⟨operand, opening, outer, body, rfl, rfl, settled, rfl⟩ :=
    step_cases stepped
  · simp [tokens, Expression.tokens]
  · simp [tokens, allTokens, Frame.tokens]
  · simp [tokens, allTokens, Frame.tokens]
  · have moved := tokens_settle op.rank frames operand
    simp [tokens, allTokens, Frame.tokens, ← moved]
  · have moved := tokens_settle .sum frames operand
    rw [settled] at moved
    simp [tokens, allTokens, Frame.tokens, Expression.tokens, ← moved]

theorem tokens_steps {sketch later : Sketch} {read : List (Token × Nat)}
    (stepped : sketch.steps read = some later) : later.tokens = sketch.tokens ++ read := by
  induction read generalizing sketch with
  | nil =>
      cases stepped
      exact (List.append_nil _).symm
  | cons placed rest ih =>
      obtain ⟨token, position⟩ := placed
      obtain ⟨next, first, others⟩ := Option.bind_eq_some_iff.mp stepped
      rw [ih others, tokens_step first, List.append_assoc, List.singleton_append]

theorem tokens_finish {sketch : Sketch} {whole : Expression}
    (finished : sketch.finish = some whole) : whole.tokens = sketch.tokens := by
  obtain ⟨frames, operand⟩ := sketch
  obtain ⟨operand, rfl, settled⟩ := finish_cases finished
  have moved := tokens_settle .sum frames operand
  rw [settled] at moved
  exact moved

theorem calls_step {sketch later : Sketch} {token : Token} {position : Nat}
    (stepped : sketch.step token position = some later) :
    later.calls = sketch.calls ++ sketch.newCalls token position := by
  obtain ⟨frames, operand⟩ := sketch
  obtain ⟨value, rfl, rfl, rfl⟩ | ⟨polarity, rfl, rfl, rfl⟩ | ⟨rfl, rfl, rfl⟩ |
    ⟨op, operand, rfl, rfl, rfl⟩ | ⟨operand, opening, outer, body, rfl, rfl, settled, rfl⟩ :=
    step_cases stepped
  · simp [calls, newCalls, Expression.calls]
  · simp [calls, newCalls, allCalls, Frame.calls]
  · simp [calls, newCalls, allCalls, Frame.calls]
  · have moved := calls_settle op.rank frames operand
    simp [calls, newCalls, allCalls, Frame.calls, moved]
  · have moved := calls_settle .sum frames operand
    rw [settled] at moved
    simpa [calls, newCalls, allCalls, Frame.calls, Expression.calls] using moved

theorem calls_steps {sketch later : Sketch} {read : List (Token × Nat)}
    (stepped : sketch.steps read = some later) :
    ∃ added, later.calls = sketch.calls ++ added := by
  induction read generalizing sketch with
  | nil =>
      cases stepped
      exact ⟨[], (List.append_nil _).symm⟩
  | cons placed rest ih =>
      obtain ⟨token, position⟩ := placed
      obtain ⟨next, first, others⟩ := Option.bind_eq_some_iff.mp stepped
      obtain ⟨added, grown⟩ := ih others
      exact ⟨sketch.newCalls token position ++ added, by
        rw [grown, calls_step first, List.append_assoc]⟩

theorem calls_finish {sketch : Sketch} {whole : Expression}
    (finished : sketch.finish = some whole) (position : Nat) :
    whole.calls = sketch.calls ++ sketch.newCalls .endOfInput position := by
  obtain ⟨frames, operand⟩ := sketch
  obtain ⟨operand, rfl, settled⟩ := finish_cases finished
  have moved := calls_settle .sum frames operand
  rw [settled] at moved
  exact moved

end Sketch

end InfixArithmetic
