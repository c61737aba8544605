import InfixArithmetic.Proofs.Machine.Relocation
import InfixArithmetic.Proofs.TokenStream.Lexemes

/-!
# Sources that differ in places

The tokens of lexemes depend on the lexemes before them and on no place, so lexemes in other
places have the same tokens there (`tokensAfter_relocate`), and so has a whole reading
(`itemsAfter_relocate`).

The machine does not look at places either.  So sources whose items differ in places only
have the same tokens, the same value, the same reverse Polish order and the same failures, up
to these places (`readTokens_relocate`, `evaluate_relocate`, `toReversePolish_relocate`).
-/

namespace InfixArithmetic

set_option autoImplicit false

variable (move : Nat → Nat)

/-! ## Streams in other places -/

theorem streamOf_relocate (tokens : List (Token × Nat)) :
    streamOf (tokens.map (relocatePlaced move)) = (streamOf tokens).map (relocateItem move) := by
  simp only [streamOf, List.map_map]
  rfl

theorem collect_relocate (stream : List Item) :
    collect (stream.map (relocateItem move))
      = ((collect stream).map (List.map (relocatePlaced move))).mapError
          (ScanError.relocate move) := by
  induction stream with
  | nil => rfl
  | cons item rest ih =>
      cases item with
      | error error => rfl
      | ok placed =>
          rw [List.map_cons, relocateItem, collect, collect, ih]
          cases collect rest <;> rfl

/-- **Lexemes in other places have the same tokens there.** -/
theorem tokensAfter_relocate (latest : Option Token) (lexemes : List (Lexeme × Nat)) :
    tokensAfter latest (lexemes.map (relocatePlaced move))
      = (tokensAfter latest lexemes).map (relocatePlaced move) := by
  induction lexemes generalizing latest with
  | nil => rfl
  | cons placed rest ih =>
      obtain ⟨lexeme, position⟩ := placed
      rw [List.map_cons, relocatePlaced]
      by_cases implied : TokenStream.impliesStar latest (lexeme.tokenAfter latest) = true
      · rw [tokensAfter_of_implied implied, tokensAfter_of_implied implied, ih]
        rfl
      · rw [tokensAfter_of_written implied, tokensAfter_of_written implied, ih]
        rfl

theorem latestAfter_relocate (latest : Option Token) (lexemes : List (Lexeme × Nat)) :
    latestAfter latest (lexemes.map (relocatePlaced move)) = latestAfter latest lexemes := by
  induction lexemes generalizing latest with
  | nil => rfl
  | cons placed rest ih => exact ih _

/-- **A reading in other places has the same items there.** -/
theorem itemsAfter_relocate (latest : Option Token) (scan : Scan) :
    itemsAfter latest (scan.relocate move) = (itemsAfter latest scan).map (relocateItem move) := by
  obtain ⟨lexemes, ⟨final, rfl⟩ | ⟨error, rfl⟩⟩ := scan.exists_chain
  · rw [Scan.chain_relocate, itemsAfter_chain, itemsAfter_chain, latestAfter_relocate,
      tokensAfter_relocate, streamOf_relocate, Scan.relocate, itemsAfter_ended, itemsAfter_ended,
      List.map_append]
    rfl
  · rw [Scan.chain_relocate, itemsAfter_chain, itemsAfter_chain, latestAfter_relocate,
      tokensAfter_relocate, streamOf_relocate, Scan.relocate, itemsAfter_refused,
      itemsAfter_refused, List.map_append]
    rfl

/-- The items of lexemes that keep their places keep them. -/
theorem streamOf_tokensAfter_of_fixed {lexemes : List (Lexeme × Nat)}
    (fixed : ∀ placed ∈ lexemes, move placed.2 = placed.2) (latest : Option Token) :
    (streamOf (tokensAfter latest lexemes)).map (relocateItem move)
      = streamOf (tokensAfter latest lexemes) := by
  rw [← streamOf_relocate, ← tokensAfter_relocate, map_relocatePlaced_of_fixed fixed]

/-! ## Sources -/

section Sources

variable {move}

/-- The items of a source are never none: there is the end, or an error. -/
theorem items_ne_nil (source : String) : items source ≠ [] :=
  itemsAfter_ne_nil none (Scan.ofText source)

variable {source other : String} (relocated : items other = (items source).map (relocateItem move))
include relocated

/-- **Sources with the same items in other places have the same tokens there**, or the same
error. -/
theorem readTokens_relocate :
    readTokens other
      = ((readTokens source).map (List.map (relocatePlaced move))).mapError
          (ScanError.relocate move) := by
  rw [readTokens, relocated, collect_relocate]
  rfl

theorem evaluate_relocate :
    evaluate other = (evaluate source).mapError (Failure.relocate move) := by
  rw [evaluate, relocated, valueRun,
    ValueStack.ignoresPlaces.run_relocate move (items_ne_nil source)]
  rfl

theorem toReversePolish_relocate :
    toReversePolish other = (toReversePolish source).mapError (Failure.relocate move) := by
  rw [toReversePolish, relocated, polishRun,
    ReversePolish.ignoresPlaces.run_relocate move (items_ne_nil source)]
  rfl

end Sources

end InfixArithmetic
