/-!
# Quoted text

A text is quoted by double quotes around it.  Inside, a double quote and a
backslash are written behind a backslash, tab, line feed and carriage return by
their letters, and any other control character by its code point in hexadecimal
digits between braces.
-/

namespace InfixArithmetic

set_option autoImplicit false

namespace Text

/-- Whether a character is one of the ASCII controls. -/
def isControl (character : Char) : Bool :=
  character.toNat < 0x20 || character.toNat = 0x7F

/-- How one character is written inside quotes. -/
def escaped (character : Char) : List Char :=
  if character = '"' || character = '\\' then ['\\', character]
  else if character = '\t' then ['\\', 't']
  else if character = '\n' then ['\\', 'n']
  else if character = '\r' then ['\\', 'r']
  else if isControl character then
    ['\\', 'u', '\x7b'] ++ Nat.toDigits 16 character.toNat ++ ['\x7d']
  else [character]

/-- A text between quotes. -/
def quoted (text : List Char) : List Char :=
  '"' :: text.flatMap escaped ++ ['"']

end Text

end InfixArithmetic
