import InfixArithmetic.Journal
import InfixArithmetic.Proofs.Machine.Lockstep
import InfixArithmetic.Proofs.Machine.Steps
import InfixArithmetic.Proofs.TokenStream.Lexemes

/-!
# What happens while a source is read

A machine that draws its tokens itself does two kinds of things, it draws and it makes calls,
and they come interleaved: a token is drawn, the calls that it leads to are made, and only then
is the next token drawn.  `TokenStream.happenings` tells all of it in order, and some of it is
worth a record (`Happening.record?`).

The journal of a source is put together afterwards, from all that can be drawn and from the
calls of a run.  It is nevertheless what happened, record for record and in order
(`Journal.toReversePolish_eq`, `Journal.evaluation_eq`).
-/

namespace InfixArithmetic

set_option autoImplicit false

/-! ## Happenings -/

/-- Something that happens while a machine reads a stream. -/
inductive Happening where
  /-- This is drawn from the stream. -/
  | drawn (emission : Emission)
  /-- The operand side is called. -/
  | called (call : Call)
  deriving DecidableEq

namespace Happening

/-- The record that is made of it, if any: of an understood star when it is drawn, and of an
operator when it is applied. -/
def record? : Happening → Option Record
  | .drawn (.implied before position) => some (.implied before position)
  | .called (.apply entry) => some (.applying entry.token entry.position)
  | .drawn (.written _ _) | .drawn (.refused _) | .called (.take _ _) | .called (.result _) => none

/-- The call that hands something over, if it is one. -/
def handed? : Happening → Option Call
  | .called (.take value position) => some (.take value position)
  | .called (.apply entry) => some (.apply entry)
  | .drawn _ | .called (.result _) => none

theorem filterMap_record?_called (calls : List Call) :
    (calls.map called).filterMap record? = calls.filterMap Call.record? := by
  rw [List.filterMap_map]
  congr
  funext call
  cases call <;> rfl

/-- The records of a draw and of the calls that it leads to. -/
theorem filterMap_record?_draw (emission : Emission) (calls : List Call) :
    (drawn emission :: calls.map called).filterMap record?
      = emission.record?.toList ++ calls.filterMap Call.record? := by
  rw [← filterMap_record?_called]
  cases emission <;> rfl

theorem filterMap_handed?_called (calls : List Call) :
    (calls.map called).filterMap handed? = calls.filter Call.handsOver := by
  rw [List.filterMap_map, ← List.filterMap_eq_filter]
  congr
  funext call
  cases call <;> rfl

end Happening

variable {σ β : Type} [OperandSide σ β]

namespace TokenStream

/-- What happens while a machine runs over a stream, drawing each item when it is needed. -/
def happenings (machine : Machine σ) (position : Nat) (stream : TokenStream) : List Happening :=
  match drawn : stream.next with
  | none => (machine.atEnd (β := β) position).calls.map .called
  | some (emission, later) =>
      match emission.item with
      | .error _ => [.drawn emission]
      | .ok (token, place) =>
          let step : Step σ (Option β) := machine.step token place
          match step.answer with
          | .error _ => .drawn emission :: step.calls.map .called
          | .ok (some _) => .drawn emission :: step.calls.map .called
          | .ok none =>
              have := budget_next_lt drawn
              .drawn emission :: (step.calls.map .called ++ happenings step.machine place later)
termination_by stream.budget

section Draws

variable {machine : Machine σ} {stream later : TokenStream} {emission : Emission}

theorem happenings_of_next_none (ended : stream.next = none) (position : Nat) :
    happenings (β := β) machine position stream
      = (machine.atEnd (β := β) position).calls.map .called := by
  rw [happenings]
  split
  · rfl
  · rename_i drawn
    rw [ended] at drawn
    cases drawn

theorem happenings_of_scanError (drawn : stream.next = some (emission, later))
    {error : ScanError} (isError : emission.item = .error error) (position : Nat) :
    happenings (β := β) machine position stream = [.drawn emission] := by
  fun_cases happenings machine position stream with
  | case1 ended => cases drawn.symm.trans ended
  | case2 other _ drawnOther => cases drawn.symm.trans drawnOther; rfl
  | case3 other _ drawnOther _ _ isToken | case4 other _ drawnOther _ _ isToken
  | case5 other _ drawnOther _ _ isToken =>
      cases drawn.symm.trans drawnOther
      cases isError.symm.trans isToken

theorem happenings_of_settled (drawn : stream.next = some (emission, later))
    {token : Token} {place : Nat} (isToken : emission.item = .ok (token, place))
    (settled : (machine.step (β := β) token place).answer ≠ .ok none) (position : Nat) :
    happenings (β := β) machine position stream
      = .drawn emission :: (machine.step (β := β) token place).calls.map .called := by
  fun_cases happenings machine position stream with
  | case1 ended => cases drawn.symm.trans ended
  | case2 other _ drawnOther _ isError =>
      cases drawn.symm.trans drawnOther
      cases isToken.symm.trans isError
  | case3 other _ drawnOther _ _ isOther | case4 other _ drawnOther _ _ isOther =>
      cases drawn.symm.trans drawnOther
      cases isToken.symm.trans isOther
      rfl
  | case5 other _ drawnOther _ _ isOther _ accepted =>
      cases drawn.symm.trans drawnOther
      cases isToken.symm.trans isOther
      exact absurd accepted settled

theorem happenings_of_none (drawn : stream.next = some (emission, later))
    {token : Token} {place : Nat} (isToken : emission.item = .ok (token, place))
    (accepted : (machine.step (β := β) token place).answer = .ok none) (position : Nat) :
    happenings (β := β) machine position stream
      = .drawn emission :: ((machine.step (β := β) token place).calls.map .called
        ++ happenings (β := β) (machine.step (β := β) token place).machine place later) := by
  fun_cases happenings machine position stream with
  | case1 ended => cases drawn.symm.trans ended
  | case2 other _ drawnOther _ isError =>
      cases drawn.symm.trans drawnOther
      cases isToken.symm.trans isError
  | case3 other _ drawnOther _ _ isOther _ _ settled
  | case4 other _ drawnOther _ _ isOther _ _ settled =>
      cases drawn.symm.trans drawnOther
      cases isToken.symm.trans isOther
      cases accepted.symm.trans settled
  | case5 other _ drawnOther _ _ isOther =>
      cases drawn.symm.trans drawnOther
      cases isToken.symm.trans isOther
      rfl

end Draws

/-! ## The calls among them -/

/-- What is handed over, along the way, is what the run hands over. -/
theorem filterMap_handed?_happenings (machine : Machine σ) (position : Nat)
    (stream : TokenStream) :
    (happenings (β := β) machine position stream).filterMap Happening.handed?
      = (runFrom (β := β) machine position (stream.emissions.map Emission.item)).handed := by
  fun_induction happenings machine position stream with
  | case1 machine position stream ended =>
      rw [emissions_of_next_none ended, List.map_nil, runFrom_nil, Run.handed_singleton,
        Happening.filterMap_handed?_called]
  | case2 machine position stream emission later drawn error isError =>
      rw [emissions_of_next_some drawn, List.map_cons, isError, runFrom_scanError]
      rfl
  | case3 machine position stream emission later drawn token place isToken step failure failed =>
      rw [emissions_of_next_some drawn, List.map_cons, isToken, runFrom_of_error failed,
        Run.handed_singleton, List.filterMap_cons_none rfl, Happening.filterMap_handed?_called]
  | case4 machine position stream emission later drawn token place isToken step result ended =>
      rw [emissions_of_next_some drawn, List.map_cons, isToken, runFrom_of_some ended,
        Run.handed_singleton, List.filterMap_cons_none rfl, Happening.filterMap_handed?_called]
  | case5 machine position stream emission later drawn token place isToken step accepted _ ih =>
      rw [emissions_of_next_some drawn, List.map_cons, isToken, runFrom_of_none accepted,
        Run.handed_cons, List.filterMap_cons_none rfl, List.filterMap_append,
        Happening.filterMap_handed?_called, ih]

/-! ## The records of them -/

/-- A stream that neither its end nor an error has been drawn from. -/
def Live (stream : TokenStream) : Prop :=
  stream.ahead.isSome = true

theorem live_ofText (source : String) : (ofText source).Live := rfl

/-- Such a stream has something to draw, and it stays one until its end or an error is drawn. -/
theorem Live.cases_next {stream : TokenStream} (live : stream.Live) :
    ∃ emission later, stream.next = some (emission, later) ∧
      ∀ token place, emission.item = .ok (token, place) → token ≠ .endOfInput → later.Live := by
  obtain ⟨ahead, held, latest⟩ := stream
  obtain ⟨scan, rfl⟩ := Option.isSome_iff_exists.mp live
  cases held with
  | some pair => exact ⟨_, _, rfl, fun _ _ _ _ => rfl⟩
  | none =>
      cases scan with
      | ended position =>
          refine ⟨_, _, rfl, fun token place isToken notEnd => ?_⟩
          cases isToken
          exact absurd rfl notEnd
      | refused error =>
          refine ⟨_, _, rfl, fun token place isToken => ?_⟩
          cases isToken
      | read lexeme position rest =>
          simp only [next]
          split
          · exact ⟨_, _, rfl, fun _ _ _ _ => rfl⟩
          · exact ⟨_, _, rfl, fun _ _ _ _ => rfl⟩

theorem ofCalls_cons (emission : Emission) (calls : List Call) (emissions : List Emission)
    (later : List (List Call)) :
    Journal.ofCalls (emission :: emissions) (calls :: later)
      = (Happening.drawn emission :: calls.map .called).filterMap Happening.record?
        ++ Journal.ofCalls emissions later := by
  rw [Happening.filterMap_record?_draw]
  rfl

theorem ofCalls_cons_nil (emission : Emission) (calls : List Call) (emissions : List Emission) :
    Journal.ofCalls (emission :: emissions) [calls]
      = (Happening.drawn emission :: calls.map .called).filterMap Happening.record? := by
  rw [ofCalls_cons, Journal.ofCalls, List.zipWith_nil_right]
  exact List.append_nil _

/-- **The records made afterwards are those of what happened, in order.** -/
theorem filterMap_record?_happenings {stream : TokenStream} (live : stream.Live)
    (machine : Machine σ) (position : Nat) :
    (happenings (β := β) machine position stream).filterMap Happening.record?
      = Journal.ofCalls stream.emissions
          (runFrom (β := β) machine position (stream.emissions.map Emission.item)).calls := by
  fun_induction happenings machine position stream with
  | case1 machine position stream ended =>
      obtain ⟨emission, later, drawn, -⟩ := live.cases_next
      rw [ended] at drawn
      cases drawn
  | case2 machine position stream emission later drawn error isError =>
      rw [emissions_of_next_some drawn, List.map_cons, isError, runFrom_scanError, ofCalls_cons_nil]
      rfl
  | case3 machine position stream emission later drawn token place isToken step failure failed =>
      rw [emissions_of_next_some drawn, List.map_cons, isToken, runFrom_of_error failed,
        ofCalls_cons_nil]
  | case4 machine position stream emission later drawn token place isToken step result ended =>
      rw [emissions_of_next_some drawn, List.map_cons, isToken, runFrom_of_some ended,
        ofCalls_cons_nil]
  | case5 machine position stream emission later drawn token place isToken step accepted _ ih =>
      obtain ⟨_, _, drawnToo, staysLive⟩ := live.cases_next
      cases drawn.symm.trans drawnToo
      have goesOn := ih (staysLive token place isToken (Machine.ne_endOfInput_of_accepted accepted))
      rw [emissions_of_next_some drawn, List.map_cons, isToken, runFrom_of_none accepted,
        ofCalls_cons, ← goesOn, ← List.filterMap_append, List.cons_append]

end TokenStream

/-! ## The journals of a source -/

namespace Journal

/-- What happens while a source is written in reverse Polish order. -/
def writing (source : String) : List Happening :=
  TokenStream.happenings (Machine.start ({} : ReversePolish)) 0 (TokenStream.ofText source)

/-- What happens while a source is evaluated. -/
def computing (source : String) : List Happening :=
  TokenStream.happenings (Machine.start ({} : ValueStack)) 0 (TokenStream.ofText source)

/-- The journal of writing a source tells what happened. -/
theorem toReversePolish_eq (source : String) :
    toReversePolish source = (writing source).filterMap Happening.record? :=
  (TokenStream.filterMap_record?_happenings (TokenStream.live_ofText source) _ 0).symm

/-- The journal of evaluating a source tells what happened. -/
theorem evaluation_eq (source : String) :
    evaluation source = (computing source).filterMap Happening.record? :=
  (TokenStream.filterMap_record?_happenings (TokenStream.live_ofText source) _ 0).symm

end Journal

end InfixArithmetic
