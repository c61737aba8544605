import InfixArithmetic.Proofs.Decimal.Reading
import InfixArithmetic.Token
import Mathlib

/-!
# Words of tokens

In the text of a reverse Polish order every token is a word, and single spaces part the words.
No word is empty or has a space in it, so the words are told apart again
(`Token.splitOn_reversePolishText`).  Signs are spelled out, so that no two tokens other than
numbers have one word; and no number has the word of one of these, since the text of a number
starts with a digit or an `i`, behind its sign.  So each word tells its token
(`Token.ofWord?_word`), and the text tells its tokens, numbers bit for bit
(`Token.reversePolishText_is_unambiguous`).
-/

namespace InfixArithmetic

set_option autoImplicit false

namespace Token

/-! ## Words -/

/-- The tokens that are no numbers. -/
def marks : List Token :=
  [.binary .add, .binary .sub, .binary .mul, .binary .div, .binary .rem, .sign .plus, .sign .minus,
    .opening, .closing, .endOfInput]

/-- The token of a word. -/
def ofWord? (word : List Char) : Option Token :=
  match marks.find? fun mark => mark.word = word with
  | some mark => some mark
  | none => (Layout.read? word).map .number

theorem word_ne_nil (token : Token) : token.word ≠ [] := by
  cases token with
  | number value => exact Layout.text_ne_nil value
  | binary op => exact nofun
  | sign polarity => cases polarity <;> exact nofun
  | opening | closing | endOfInput => exact nofun

theorem space_not_mem_word (token : Token) : ' ' ∉ token.word := by
  cases token with
  | number value => exact Layout.space_not_mem_text value
  | binary op => cases op <;> decide
  | sign polarity => cases polarity <;> decide
  | opening | closing | endOfInput => decide

/-- The words of tokens that are no numbers tell them apart. -/
theorem find?_marks_word {mark : Token} (isMark : mark ∈ marks) :
    marks.find? (fun other => other.word = mark.word) = some mark := by
  have each : ∀ mark ∈ marks, marks.find? (fun other => other.word = mark.word) = some mark := by
    decide
  exact each mark isMark

/-- None of them is the text of a number, which starts with a digit or an `i` behind its sign. -/
theorem find?_marks_text {value : Float} (isNumber : value.isNaN = false) :
    marks.find? (fun mark => mark.word = Layout.plain.text value) = none := by
  obtain ⟨sign, _, written, ⟨first, rest, rfl, starts⟩, -⟩ := Layout.exists_text_eq isNumber
  have unsigned : ∀ mark ∈ marks, (mark.word.head?.all fun first =>
      !first.isDigit && decide (first ≠ 'i')) = true := by
    decide
  have signed : ∀ mark ∈ marks, mark.word.head? = some '-' → mark.word.length = 1 := by
    decide
  refine List.find?_eq_none.mpr fun mark isMark same => ?_
  have sameWord : mark.word = Layout.signText sign ++ first :: rest := by
    rw [← written]
    exact of_decide_eq_true same
  cases sign with
  | negative =>
      have lone := signed mark isMark (congrArg List.head? sameWord)
      rw [sameWord] at lone
      cases lone
  | positive =>
      have other := unsigned mark isMark
      rw [sameWord] at other
      change (!first.isDigit && decide (first ≠ 'i')) = true at other
      obtain isDigit | rfl := starts
      · rw [isDigit] at other
        cases other
      · cases other

/-- **A word tells its token**, a number bit for bit. -/
theorem ofWord?_word {token : Token}
    (numbers : ∀ value, token = .number value → value.isNaN = false) :
    ofWord? token.word = some token := by
  have ofMark (isMark : token ∈ marks) : ofWord? token.word = some token := by
    rw [ofWord?, find?_marks_word isMark]
  cases token with
  | number value =>
      have isNumber := numbers value rfl
      show (match marks.find? (fun mark => mark.word = Layout.plain.text value) with
        | some mark => some mark
        | none => (Layout.read? (Layout.plain.text value)).map number) = _
      rw [find?_marks_text isNumber, Layout.read?_text isNumber]
      rfl
  | binary op =>
      refine ofMark ?_
      cases op <;> decide
  | sign polarity =>
      refine ofMark ?_
      cases polarity <;> decide
  | opening | closing | endOfInput => exact ofMark (by decide)

/-! ## Texts -/

/-- The tokens of a text in reverse Polish order. -/
def ofReversePolishText? (text : String) : Option (List Token) :=
  if text = "" then some [] else (text.toList.splitOn ' ').mapM ofWord?

/-- **Split at its spaces, the text has one word for each token.** -/
theorem splitOn_reversePolishText {tokens : List Token} (nonempty : tokens ≠ []) :
    (reversePolishText tokens).toList.splitOn ' ' = tokens.map word := by
  rw [reversePolishText, String.toList_ofList]
  refine List.splitOn_intercalate ' ' (fun word member => ?_) ?_
  · obtain ⟨token, -, rfl⟩ := List.mem_map.mp member
    exact token.space_not_mem_word
  · exact fun none => nonempty (List.map_eq_nil_iff.mp none)

theorem reversePolishText_ne_empty {tokens : List Token} (nonempty : tokens ≠ []) :
    reversePolishText tokens ≠ "" := by
  intro empty
  have words := splitOn_reversePolishText nonempty
  rw [empty] at words
  have member : [] ∈ tokens.map word := by
    rw [← words]
    exact List.mem_cons_self
  obtain ⟨token, -, isEmpty⟩ := List.mem_map.mp member
  exact token.word_ne_nil isEmpty

theorem mapM_ofWord?_map_word {tokens : List Token}
    (numbers : ∀ value, .number value ∈ tokens → value.isNaN = false) :
    (tokens.map word).mapM ofWord? = some tokens := by
  induction tokens with
  | nil => rfl
  | cons token rest ih =>
      have first : ofWord? token.word = some token := ofWord?_word fun value same =>
        numbers value (same ▸ List.mem_cons_self)
      have others := ih fun value member => numbers value (List.mem_cons_of_mem token member)
      rw [List.map_cons, List.mapM_cons, first, others]
      rfl

/-- **The text tells its tokens.** -/
theorem ofReversePolishText?_reversePolishText {tokens : List Token}
    (numbers : ∀ value, .number value ∈ tokens → value.isNaN = false) :
    ofReversePolishText? (reversePolishText tokens) = some tokens := by
  by_cases empty : tokens = []
  · subst empty
    rfl
  · rw [ofReversePolishText?, if_neg (reversePolishText_ne_empty empty),
      splitOn_reversePolishText empty, mapM_ofWord?_map_word numbers]

/-- **The text of a reverse Polish order is unambiguous.**  For tokens whose numbers are numbers:

- other such tokens with the same text are the same tokens, numbers bit for bit;
- if there are any, the text splits at single spaces into one word for each token, and no word is
  empty;
- reading the words one by one gives the tokens back. -/
theorem reversePolishText_is_unambiguous (tokens : List Token)
    (numbers : ∀ value, .number value ∈ tokens → value.isNaN = false) :
    (∀ others : List Token, (∀ value, .number value ∈ others → value.isNaN = false) →
      reversePolishText tokens = reversePolishText others → tokens = others) ∧
    (tokens ≠ [] →
      (reversePolishText tokens).toList.splitOn ' ' = tokens.map word ∧
        ∀ token ∈ tokens, token.word ≠ []) ∧
    ofReversePolishText? (reversePolishText tokens) = some tokens := by
  refine ⟨fun others numbersToo same => ?_, fun nonempty => ?_, ?_⟩
  · have read := ofReversePolishText?_reversePolishText numbers
    rw [same, ofReversePolishText?_reversePolishText numbersToo] at read
    exact (Option.some.inj read).symm
  · exact ⟨splitOn_reversePolishText nonempty, fun token _ => token.word_ne_nil⟩
  · exact ofReversePolishText?_reversePolishText numbers

/-- A zero of either sign, its negation, a tenth and a subtraction. -/
def zeroTokens (zero : Float) : List Token :=
  [.number zero, .sign .minus, .number 0.1, .binary .sub]

/-- The two zeros are told apart, and so are a minus as a sign, before digits and between
operands. -/
theorem reversePolishText_is_unambiguous_zeros :
    (∀ value, .number value ∈ zeroTokens (-0) → value.isNaN = false) ∧
      reversePolishText (zeroTokens (-0)) = "-0 neg 0.1 -" ∧
      reversePolishText (zeroTokens (-0)) ≠ reversePolishText (zeroTokens 0) ∧
      "-0 neg 0.1 -".toList.splitOn ' ' = (zeroTokens (-0)).map word ∧
      ofReversePolishText? "-0 neg 0.1 -" = some (zeroTokens (-0)) := by
  have numbers (zero : Float) (isNumber : zero.isNaN = false) :
      ∀ value, .number value ∈ zeroTokens zero → value.isNaN = false := by
    intro value member
    simp only [zeroTokens, List.mem_cons, number.injEq, reduceCtorEq, List.not_mem_nil, or_false,
      false_or] at member
    obtain rfl | rfl := member
    · exact isNumber
    · decide +kernel
  have negative := numbers (-0) (by decide +kernel)
  have positive := numbers 0 (by decide +kernel)
  have written : reversePolishText (zeroTokens (-0)) = "-0 neg 0.1 -" := by decide +kernel
  obtain ⟨unambiguous, split, read⟩ := reversePolishText_is_unambiguous (zeroTokens (-0)) negative
  refine ⟨negative, written, fun same => ?_, ?_, ?_⟩
  · exact absurd (unambiguous (zeroTokens 0) positive same) (by decide +kernel)
  · rw [← written]
    exact (split nofun).1
  · rw [← written]
    exact read

end Token

end InfixArithmetic
