import InfixArithmetic.Machine.Basic
import InfixArithmetic.OperandSide.ValueStack
import InfixArithmetic.OperandSide.ReversePolish
import InfixArithmetic.TokenStream

/-!
# Running the machine over a stream

A run takes the items of a stream one by one until there is an answer.  The first
error of the stream or of the machine is the answer, and so is the result after
the end; whatever comes later is not looked at.  A stream without an end is ended
at the place of its last item.

Beside the answer a run keeps the calls that were made, item by item, so that the
order of everything that happened can be told afterwards.
-/

namespace InfixArithmetic

set_option autoImplicit false

/-- What came of a run. -/
structure Run (β : Type) where
  answer : Except Failure β
  /-- The calls made for each item that was looked at, and for the closing step of
  a stream without an end. -/
  calls : List (List Call)

/-- Runs a machine; the position is that of the item before. -/
def runFrom {σ β : Type} [OperandSide σ β] (machine : Machine σ) (position : Nat) :
    List Item → Run β
  | [] =>
      let step : Step σ β := machine.atEnd position
      ⟨step.answer, [step.calls]⟩
  | .error error :: _ => ⟨.error (.scan error), [[]]⟩
  | .ok (token, position) :: rest =>
      let step : Step σ (Option β) := machine.step token position
      match step.answer with
      | .error failure => ⟨.error failure, [step.calls]⟩
      | .ok (some result) => ⟨.ok result, [step.calls]⟩
      | .ok none =>
          let later := runFrom step.machine position rest
          ⟨later.answer, step.calls :: later.calls⟩

/-- Runs a fresh machine over a stream. -/
def run {σ β : Type} [OperandSide σ β] (side : σ) (stream : List Item) : Run β :=
  runFrom (Machine.start side) 0 stream

/-! ## The two readings of a stream -/

/-- The run that computes a value. -/
def valueRun (stream : List Item) : Run Float :=
  run ({} : ValueStack) stream

/-- The run that writes the reverse Polish order. -/
def polishRun (stream : List Item) : Run (List Token) :=
  run ({} : ReversePolish) stream

/-- The value of a source. -/
def evaluate (source : String) : Except Failure Float :=
  (valueRun (items source)).answer

/-- A source in reverse Polish order.  Nothing is computed, so `1/0` is fine. -/
def toReversePolish (source : String) : Except Failure (List Token) :=
  (polishRun (items source)).answer

end InfixArithmetic
