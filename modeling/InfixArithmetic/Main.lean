import InfixArithmetic.CommandLine

/-!
# The program

Reads the arguments, reads the file if one is named, and shows what the work on
the request leaves behind.
-/

namespace InfixArithmetic

set_option autoImplicit false

namespace CommandLine

/-- How the command is used. -/
def usage : String :=
  "usage: [-f|--file] [-p|--postfix] [--] <subject>\n"

/-- The text of a file, unless it is missing or not UTF-8. -/
def readText? (name : String) : IO (Option String) := do
  try
    return String.fromUTF8? (← IO.FS.readBinFile name)
  catch _ =>
    return none

/-- The command: its exit code is zero when everything was shown, one when
something failed, and two when the arguments make no request. -/
def execute (arguments : List String) : IO UInt32 := do
  match Request.ofArguments? arguments with
  | none =>
      (← IO.getStderr).putStr usage
      return 2
  | some request =>
      let text? ← if request.fromFile then readText? request.subject else pure none
      let outcome := perform request text?
      (← IO.getStdout).putStr outcome.output
      (← IO.getStderr).putStr outcome.errors
      return outcome.code.toUInt32

end CommandLine

end InfixArithmetic

/-- The entry point of the program. -/
def main (arguments : List String) : IO UInt32 :=
  InfixArithmetic.CommandLine.execute arguments
