import InfixArithmetic.Machine.Run
import InfixArithmetic.Text.Quoted

/-!
# The journal

While a source is read, a record is made of everything that its text does not
show: each star that is understood, when it is drawn, and each operator, just
before it is applied.  The last record of a successful evaluation is its value.

Tokens are drawn only as the machine asks for them, so the records of an item are
the one for drawing it followed by those for the calls it led to.
-/

namespace InfixArithmetic

set_option autoImplicit false

/-! ## Records -/

/-- How much a record matters. -/
inductive Level where
  | trace
  | debug
  | info
  deriving DecidableEq

/-- Levels in order, the least severe first. -/
def Level.severity : Level → Nat
  | .trace => 0
  | .debug => 1
  | .info => 2

/-- Something worth telling. -/
inductive Record where
  /-- A star is understood before a token. -/
  | implied (before : Token) (position : Nat)
  /-- An operator is about to be applied. -/
  | applying (token : Token) (position : Nat)
  /-- A source has this value. -/
  | evaluated (source : String) (value : Float)
  deriving DecidableEq

namespace Record

/-- The level of a record. -/
def level : Record → Level
  | .applying _ _ => .trace
  | .implied _ _ | .evaluated _ _ => .debug

/-- What a record says. -/
def message : Record → String
  | .implied before position =>
      s!"implicit multiplication before {before.mention} at position {position}"
  | .applying token position => s!"applying {token.mention} from position {position}"
  | .evaluated source value =>
      "evaluated " ++ String.ofList (Text.quoted source.toList) ++ " to "
        ++ String.ofList (Layout.plain.text value)

end Record

/-- The record of drawing from the stream. -/
def Emission.record? : Emission → Option Record
  | .implied before position => some (.implied before position)
  | .written _ _ | .refused _ => none

/-- The record of a call. -/
def Call.record? : Call → Option Record
  | .apply entry => some (.applying entry.token entry.position)
  | .take _ _ | .result _ => none

/-! ## The records of a run -/

namespace Journal

/-- The records of what was drawn and what each of it led to; what was never drawn
leaves none. -/
def ofCalls (emissions : List Emission) (calls : List (List Call)) : List Record :=
  (List.zipWith (fun emission made => emission.record?.toList ++ made.filterMap Call.record?)
    emissions calls).flatten

/-- The records of writing a source in reverse Polish order. -/
def toReversePolish (source : String) : List Record :=
  ofCalls (TokenStream.ofText source).emissions (polishRun (items source)).calls

/-- The records of evaluating a source, its value aside. -/
def evaluation (source : String) : List Record :=
  ofCalls (TokenStream.ofText source).emissions (valueRun (items source)).calls

/-- The record of the value of a source, if it has one. -/
def outcome (source : String) : List Record :=
  match InfixArithmetic.evaluate source with
  | .ok value => [.evaluated source value]
  | .error _ => []

/-- The records of evaluating a source. -/
def evaluate (source : String) : List Record :=
  evaluation source ++ outcome source

/-- The records that are at least as severe as a level. -/
def atLevel (level : Level) (records : List Record) : List Record :=
  records.filter fun record => level.severity ≤ record.level.severity

end Journal

end InfixArithmetic
