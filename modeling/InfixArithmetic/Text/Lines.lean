/-!
# The lines of a text

Line feeds cut a text into pieces, one more than there are line feeds.  The lines of a text are
its pieces but for two things: a carriage return right before a line feed belongs to the end of
the line and not to the line, and behind the last line feed there is one more line only if
something stands there.
-/

namespace InfixArithmetic

set_option autoImplicit false

namespace Text

/-- Pieces with one more character in front: a line feed opens a new first piece,
and any other character joins the first piece. -/
def writeBefore (character : Char) (following : List (List Char)) : List (List Char) :=
  if character = '\n' then
    [] :: following
  else
    match following with
    | [] => [[character]]
    | piece :: others => (character :: piece) :: others

/-- What stands between the line feeds of a text, before the first one and behind
the last one. -/
def pieces (text : List Char) : List (List Char) :=
  text.foldr writeBefore [[]]

@[simp] theorem pieces_nil : pieces [] = [[]] := rfl

/-- A piece without the carriage return at its end, if there is one. -/
def withoutReturn (piece : List Char) : List Char :=
  if piece.getLast? = some '\r' then piece.dropLast else piece

/-- The lines of a text, each ended by a line feed with a carriage return before it or without
one, and one more line behind the last line feed unless nothing stands there. -/
def lines (text : List Char) : List (List Char) :=
  (pieces text).dropLast.map withoutReturn ++ (pieces text).getLast?.toList.filter (!·.isEmpty)

end Text

end InfixArithmetic
