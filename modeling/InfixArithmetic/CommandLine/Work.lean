import InfixArithmetic.Machine.Run
import InfixArithmetic.Text.Lines
import InfixArithmetic.Text.Whitespace

/-!
# The work of the command line

A request names one text, which is an expression or the name of a file that holds one expression
on each line, and says whether expressions are evaluated or shown in reverse Polish order.

A file is worked through from the top.  Lines that are empty or start with `#`, without the white
space around them, are passed over but counted.  The first line that fails ends the work, and what
was shown before it stays shown.
-/

namespace InfixArithmetic

set_option autoImplicit false

namespace CommandLine

/-- What the command is asked to do. -/
structure Request where
  fromFile : Bool
  reversePolish : Bool
  subject : String
  deriving DecidableEq

/-- What the command leaves behind. -/
structure Outcome where
  code : Nat
  output : String
  errors : String
  deriving DecidableEq

/-- What is shown for one expression. -/
def answer (reversePolish : Bool) (expression : String) : Except Failure String :=
  if reversePolish then
    match toReversePolish expression with
    | .ok tokens => .ok (Token.reversePolishText tokens)
    | .error failure => .error failure
  else
    match evaluate expression with
    | .ok value => .ok (String.ofList (Layout.plain.text value))
    | .error failure => .error failure

/-- The work on one expression; a failure is told behind an introduction. -/
def showExpression (reversePolish : Bool) (introduction expression : String) : Outcome :=
  match answer reversePolish expression with
  | .ok shown => ⟨0, shown ++ "\n", ""⟩
  | .error failure => ⟨1, "", introduction ++ failure.message ++ "\n"⟩

/-- Whether a line without the white space around it is passed over. -/
def isPassedOver (line : List Char) : Bool :=
  line.isEmpty || line.head? = some '#'

/-- The work on one line, which has a number. -/
def showLine (reversePolish : Bool) (number : Nat) (line : List Char) : Outcome :=
  let expression := Text.trim line
  if isPassedOver expression then
    ⟨0, "", ""⟩
  else
    showExpression reversePolish s!"Line {number}: " (String.ofList expression)

/-- The work on lines, the first of which has a number. -/
def showLines (reversePolish : Bool) : Nat → List (List Char) → Outcome
  | _, [] => ⟨0, "", ""⟩
  | number, line :: rest =>
      let first := showLine reversePolish number line
      if first.code = 0 then
        let others := showLines reversePolish (number + 1) rest
        { others with output := first.output ++ others.output }
      else
        first

/-- The work on the text of a file. -/
def showFile (reversePolish : Bool) (text : String) : Outcome :=
  showLines reversePolish 1 (Text.lines text.toList)

/-- The work on a request with the text of its file; a file that cannot be read has none. -/
def perform (request : Request) (text? : Option String) : Outcome :=
  if request.fromFile then
    match text? with
    | some text => showFile request.reversePolish text
    | none =>
        ⟨1, "", "Failed to read the input file '" ++ request.subject
          ++ "'. Perhaps this file does not exist?\n"⟩
  else
    showExpression request.reversePolish "" request.subject

end CommandLine

end InfixArithmetic
