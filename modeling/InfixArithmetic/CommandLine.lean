import InfixArithmetic.CommandLine.Work

/-!
# The command line

The outer layer of the program reads its arguments here, and `Main` reads the file and shows what
the work leaves behind.  The work itself is in `CommandLine.Work`.

The command takes one text and two flags.  With `--file` the text is the name of a file, and with
`--postfix` expressions are shown in reverse Polish order.  Of the usual conventions this covers
long flags, one-letter flags and bundles of them, before the text or behind it, and `--`, behind
which everything is text.  A flag given twice, a flag with a value, and no text or more than one
make no request.  Any other word that starts with a dash is text, since an expression may start
with a sign.  Asking for help or for the version is not covered, so `-h`, `--help`, `-V` and
`--version` are text as well.
-/

namespace InfixArithmetic

set_option autoImplicit false

namespace CommandLine

/-- The two flags. -/
inductive Flag where
  | file
  | reversePolish
  deriving DecidableEq

/-- What one argument is, as long as flags are still looked for. -/
inductive Word where
  /-- One flag, or a bundle of one-letter flags. -/
  | flags (given : List Flag)
  /-- A flag that was given a value. -/
  | misused
  /-- Any other text, even if it starts with a dash. -/
  | operand (text : String)
  deriving DecidableEq

/-- The flag of a letter. -/
def Flag.ofLetter? : Char → Option Flag
  | 'f' => some .file
  | 'p' => some .reversePolish
  | _ => none

/-- What an argument is. -/
def Word.ofArgument (argument : String) : Word :=
  if argument = "--file" then .flags [.file]
  else if argument = "--postfix" then .flags [.reversePolish]
  else if argument.startsWith "--file=" || argument.startsWith "--postfix=" then .misused
  else
    match argument.toList with
    | '-' :: letter :: letters =>
        match (letter :: letters).mapM Flag.ofLetter? with
        | some given => .flags given
        | none => .operand argument
    | _ => .operand argument

/-- The flags of a word. -/
def Word.flagList : Word → List Flag
  | .flags given => given
  | .misused | .operand _ => []

/-- The text of a word that is none of the flags. -/
def Word.text? : Word → Option String
  | .operand text => some text
  | .flags _ | .misused => none

/-- Reads the arguments.  Everything behind the first `--` is text.  There has to
be exactly one text, and no flag may be given twice. -/
def Request.ofArguments? (arguments : List String) : Option Request :=
  let words := (arguments.takeWhile (· ≠ "--")).map Word.ofArgument
  let flags := words.flatMap Word.flagList
  let texts := words.filterMap Word.text? ++ (arguments.dropWhile (· ≠ "--")).drop 1
  match texts with
  | [subject] =>
      if words.contains .misused || flags.count .file > 1 || flags.count .reversePolish > 1 then
        none
      else
        some ⟨flags.contains .file, flags.contains .reversePolish, subject⟩
  | _ => none

end CommandLine

end InfixArithmetic
