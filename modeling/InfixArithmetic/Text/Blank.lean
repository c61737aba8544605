/-!
# Blanks and byte offsets

A place in a source is the number of bytes before it in the UTF-8 form of the
text, so a character counts as one to four.  Between lexemes a source may hold
blanks, which are five ASCII characters and no others: a no-break space, for
instance, is not a blank.
-/

namespace InfixArithmetic

set_option autoImplicit false

namespace Text

/-- The length of a text in bytes. -/
def byteLength (text : List Char) : Nat :=
  text.foldr (fun character total => character.utf8Size + total) 0

/-- Space, tab, line feed, carriage return and form feed. -/
def isBlank (character : Char) : Bool :=
  character = ' ' || character = '\t' || character = '\n' || character = '\r'
    || character = '\x0c'

/-! ## Byte lengths add up -/

@[simp] theorem byteLength_nil : byteLength [] = 0 := rfl

@[simp] theorem byteLength_cons (character : Char) (rest : List Char) :
    byteLength (character :: rest) = character.utf8Size + byteLength rest := rfl

theorem byteLength_append (left right : List Char) :
    byteLength (left ++ right) = byteLength left + byteLength right := by
  induction left with
  | nil => rw [List.nil_append, byteLength_nil, Nat.zero_add]
  | cons character rest ih =>
      rw [List.cons_append, byteLength_cons, byteLength_cons, ih, Nat.add_assoc]

end Text

end InfixArithmetic
