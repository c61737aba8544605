import InfixArithmetic.Proofs.TokenStream.Lossless
import InfixArithmetic.Proofs.TokenStream.Relocation

/-!
# Blanks mean nothing

Blanks can be put in anywhere but inside a run of digits and points, and nothing changes but
the places behind them: `blanks_change_nothing`.  What is before the blanks is read to its
end or to its first flaw without a look at what follows (`SplitsUpTo.append`,
`Faulty.append`), what is behind them is read as it would be elsewhere
(`Scan.ofChars_relocate`), and everything that is made of a reading takes places for labels.

So a plus or minus is a sign or an operator whatever blanks are around it, and a star is
understood between a group and what follows it however far away that is.
-/

namespace InfixArithmetic

set_option autoImplicit false

/-- In front of a text, blanks let no run of digits and points go on into it. -/
theorem parted_blanks {before blanks behind : List Char}
    (areBlank : ∀ blank ∈ blanks, Text.isBlank blank = true)
    (parted : StartsRun before ∨ EndsRun behind) :
    StartsRun before ∨ EndsRun (blanks ++ behind) := by
  cases blanks with
  | nil => exact parted
  | cons blank others =>
      exact .inr (endsRun_cons.mpr (isNumeral_of_isBlank (areBlank blank List.mem_cons_self)))

/-- **Blanks move the items behind them and leave the others alone.** -/
theorem items_blanks {before blanks behind : String}
    (areBlank : ∀ blank ∈ blanks.toList, Text.isBlank blank = true)
    (parted : StartsRun before.toList ∨ EndsRun behind.toList) :
    items (before ++ blanks ++ behind)
      = (items (before ++ behind)).map
          (relocateItem (shiftFrom before.utf8ByteSize blanks.utf8ByteSize)) := by
  have partedBlanks : StartsRun before.toList ∨ EndsRun (blanks ++ behind).toList := by
    rw [String.toList_append]
    exact parted_blanks areBlank parted
  rw [← Text.byteLength_toList before, ← Text.byteLength_toList blanks]
  obtain ⟨lexemes, ⟨final, splits⟩ | ⟨error, faulty⟩⟩ := splits_or_faulty before.toList 0
  · have final_eq := splits.final_eq
    rw [Nat.zero_add] at final_eq
    subst final_eq
    have fixed : ∀ placed ∈ lexemes, shiftFrom (Text.byteLength before.toList)
        (Text.byteLength blanks.toList) placed.2 = placed.2 :=
      fun placed member => shiftFrom_of_lt _ (splits.upTo.lt_place placed member)
    rw [String.append_assoc, splits.items_append parted, splits.items_append partedBlanks,
      String.toList_append, List.map_append,
      streamOf_tokensAfter_of_fixed _ fixed, ← itemsAfter_relocate, Scan.ofChars_blanks areBlank,
      Scan.ofChars_relocate fun place behind => shiftFrom_of_le _ behind]
  · obtain ⟨errorInside, inside⟩ := faulty.lt_length
    rw [Nat.zero_add] at errorInside
    have fixed : ∀ placed ∈ lexemes, shiftFrom (Text.byteLength before.toList)
        (Text.byteLength blanks.toList) placed.2 = placed.2 := by
      intro placed member
      have before := inside placed member
      rw [Nat.zero_add] at before
      exact shiftFrom_of_lt _ before
    rw [String.append_assoc, faulty.items_append parted, faulty.items_append partedBlanks,
      List.map_append,
      streamOf_tokensAfter_of_fixed _ fixed, List.map_singleton, relocateItem,
      ScanError.relocate_of_fixed (shiftFrom_of_lt _ errorInside)]

/-- **Blanks mean nothing.**  Blanks can be put in at any place of a source, if no run of
digits and points goes across it, and the tokens, the value and the reverse Polish order, or
the error that there is instead, are the same.  Their places are the same before the blanks,
and from there on later by the length of the blanks. -/
theorem blanks_change_nothing (before blanks behind : String)
    (areBlank : ∀ blank ∈ blanks.toList, Text.isBlank blank = true)
    (parted : StartsRun before.toList ∨ EndsRun behind.toList) :
    readTokens (before ++ blanks ++ behind)
        = ((readTokens (before ++ behind)).map (List.map (relocatePlaced
            (shiftFrom before.utf8ByteSize blanks.utf8ByteSize)))).mapError
            (ScanError.relocate (shiftFrom before.utf8ByteSize blanks.utf8ByteSize)) ∧
      evaluate (before ++ blanks ++ behind)
        = (evaluate (before ++ behind)).mapError
            (Failure.relocate (shiftFrom before.utf8ByteSize blanks.utf8ByteSize)) ∧
      toReversePolish (before ++ blanks ++ behind)
        = (toReversePolish (before ++ behind)).mapError
            (Failure.relocate (shiftFrom before.utf8ByteSize blanks.utf8ByteSize)) := by
  have relocated := items_blanks areBlank parted
  exact ⟨readTokens_relocate relocated, evaluate_relocate relocated,
    toReversePolish_relocate relocated⟩

/-- A space and a line feed between the group and the number in `(1)2(` move the star that is
understood before the number with it, and the parenthesis that is out of place as well. -/
theorem blanks_change_nothing_groupBeforeNumber :
    (∀ blank ∈ " \n".toList, Text.isBlank blank = true) ∧ StartsRun "(1)".toList ∧
      readTokens ("(1)" ++ " \n" ++ "2(")
        = .ok [(.opening, 0), (.number 1, 1), (.closing, 2), (.binary .mul, 5), (.number 2, 5),
          (.opening, 6), (.endOfInput, 7)] ∧
      evaluate ("(1)" ++ " \n" ++ "2(")
        = .error (.grammar (.missingOperator Token.opening.mention 6)) := by
  have areBlank : ∀ blank ∈ [' ', '\n'], Text.isBlank blank = true :=
    List.forall_mem_cons.mpr ⟨rfl, List.forall_mem_singleton.mpr rfl⟩
  have starts : StartsRun (['(', '1'] ++ [')']) := startsRun_concat.mpr rfl
  have read : readTokens ("(1)" ++ "2(") = .ok [(.opening, 0), (.number 1, 1), (.closing, 2),
      (.binary .mul, 3), (.number 2, 3), (.opening, 4), (.endOfInput, 5)] :=
    readTokens_of_splits splits_groupBeforeNumber
  have value : evaluate ("(1)" ++ "2(")
      = .error (.grammar (.missingOperator Token.opening.mention 4)) := by
    show (valueRun (items "(1)2(")).answer = _
    rw [items_of_splits splits_groupBeforeNumber]
    rfl
  obtain ⟨readBehind, valueBehind, -⟩ :=
    blanks_change_nothing "(1)" " \n" "2(" areBlank (.inl starts)
  rw [read] at readBehind
  rw [value] at valueBehind
  exact ⟨areBlank, starts, readBehind, valueBehind⟩

end InfixArithmetic
