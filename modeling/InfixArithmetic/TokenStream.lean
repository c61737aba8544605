import InfixArithmetic.Lexeme.Scan

/-!
# The stream of tokens

Tokens are drawn one at a time from the reading of a source.  Drawing settles two
things that lexemes leave open, and both by looking no further back than the
token drawn last.

- A plus or minus is a sign when an operand has to come next, which is so at the
  start and after an operator, a sign or an opening parenthesis.
- A number or an opening parenthesis right behind a closing parenthesis is
  multiplied with the group: a star is drawn first, at the place of what follows
  it, and the number or parenthesis is held back for the next draw.

The stream ends with the end of the input or with an error, and nothing is ever
drawn after that.
-/

namespace InfixArithmetic

set_option autoImplicit false

/-- One thing drawn from a stream. -/
inductive Emission where
  /-- A token that stands in the source, or the end of it. -/
  | written (token : Token) (position : Nat)
  /-- The star that is understood before a token. -/
  | implied (before : Token) (position : Nat)
  /-- The error that the reading stops at. -/
  | refused (error : ScanError)
  deriving DecidableEq

/-- An item of a stream: a token with its place, or an error. -/
abbrev Item : Type := Except ScanError (Token × Nat)

/-- What is drawn, without telling an implied star from a written one. -/
def Emission.item : Emission → Item
  | .written token position => .ok (token, position)
  | .implied _ position => .ok (.binary .mul, position)
  | .refused error => .error error

/-- A stream of tokens between two draws. -/
structure TokenStream where
  /-- What is still to be read; nothing after the end or an error. -/
  ahead : Option Scan
  /-- A token held back behind an implied star. -/
  held : Option (Token × Nat) := none
  /-- The token drawn last. -/
  latest : Option Token := none

namespace TokenStream

/-- The stream of a source. -/
def ofText (source : String) : TokenStream where
  ahead := some (Scan.ofText source)

/-! ## Drawing -/

/-- Whether an operand has to come next. -/
def awaitsOperand (stream : TokenStream) : Bool :=
  match stream.latest with
  | none => true
  | some token => token.awaitsOperand

/-- The token that a lexeme is at this point of the stream. -/
def tokenOf (stream : TokenStream) : Lexeme → Token
  | .number value => .number value
  | .plus => if stream.awaitsOperand then .sign .plus else .binary .add
  | .minus => if stream.awaitsOperand then .sign .minus else .binary .sub
  | .star => .binary .mul
  | .slash => .binary .div
  | .percent => .binary .rem
  | .opening => .opening
  | .closing => .closing

/-- Whether a star is understood between two tokens. -/
def impliesStar (latest : Option Token) : Token → Bool
  | .number _ | .opening => latest = some .closing
  | .binary _ | .sign _ | .closing | .endOfInput => false

/-- The next emission and the stream behind it. -/
def next (stream : TokenStream) : Option (Emission × TokenStream) :=
  match stream.held, stream.ahead with
  | some (token, position), _ =>
      some (.written token position, { stream with held := none, latest := some token })
  | none, none => none
  | none, some (.ended position) =>
      some (.written .endOfInput position, { ahead := none, latest := some .endOfInput })
  | none, some (.refused error) => some (.refused error, { stream with ahead := none })
  | none, some (.read lexeme position rest) =>
      let token := stream.tokenOf lexeme
      if impliesStar stream.latest token then
        some (.implied token position,
          { ahead := some rest, held := some (token, position), latest := some (.binary .mul) })
      else
        some (.written token position, { ahead := some rest, latest := some token })

/-! ## Drawing everything -/

/-- A bound on the draws that are left: one for a token held back, and two for
each link that is still to be read. -/
def budget (stream : TokenStream) : Nat :=
  (if stream.held.isSome then 1 else 0)
    + (match stream.ahead with
      | none => 0
      | some scan => 2 * scan.length)

/-- Every draw lowers the bound. -/
theorem budget_next_lt {stream later : TokenStream} {emission : Emission}
    (drawn : stream.next = some (emission, later)) : later.budget < stream.budget := by
  obtain ⟨ahead, held, latest⟩ := stream
  cases held with
  | some pair =>
      cases drawn
      simp [budget]
  | none =>
      cases ahead with
      | none => cases drawn
      | some scan =>
          cases scan with
          | ended position =>
              cases drawn
              simp [budget, Scan.length]
          | refused error =>
              cases drawn
              simp [budget, Scan.length]
          | read lexeme position rest =>
              simp only [next] at drawn
              split at drawn
              · cases drawn
                simp only [budget, Scan.length, Option.isSome_some, Option.isSome_none, if_true]
                simp only [Bool.false_eq_true, if_false]
                omega
              · cases drawn
                simp only [budget, Scan.length, Option.isSome_none, Bool.false_eq_true, if_false]
                omega

/-- Everything that is drawn from a stream, in order. -/
def emissions (stream : TokenStream) : List Emission :=
  match drawn : stream.next with
  | none => []
  | some (emission, later) =>
      have := budget_next_lt drawn
      emission :: later.emissions
termination_by stream.budget

/-- The stream behind a number of draws. -/
def after : Nat → TokenStream → TokenStream
  | 0, stream => stream
  | count + 1, stream =>
      match stream.next with
      | none => stream
      | some (_, later) => after count later

/-- What each of a number of draws gives: nothing once the stream has ended. -/
def draws : Nat → TokenStream → List (Option Emission)
  | 0, _ => []
  | count + 1, stream =>
      match stream.next with
      | none => none :: draws count stream
      | some (emission, later) => some emission :: draws count later

end TokenStream

/-! ## The tokens of a source -/

/-- The items of a source, in order. -/
def items (source : String) : List Item :=
  (TokenStream.ofText source).emissions.map Emission.item

/-- The items up to the first error, or that error. -/
def collect : List Item → Except ScanError (List (Token × Nat))
  | [] => .ok []
  | .error error :: _ => .error error
  | .ok placed :: rest =>
      match collect rest with
      | .ok others => .ok (placed :: others)
      | .error error => .error error

/-- All tokens of a source with their places, the end included, or the first
error. -/
def readTokens (source : String) : Except ScanError (List (Token × Nat)) :=
  collect (items source)

end InfixArithmetic
