import InfixArithmetic.Proofs.Lexeme.UpTo
import InfixArithmetic.Proofs.TokenStream.Lazy

/-!
# Text behind a failure is not looked at

A source can fail before its end: it has a flaw, or one of its tokens stops the machine.
Then any text may be put behind it, and it fails in the same way, at the same place and
with the same words (`failure_ignores_continuation`).  Neither the reading nor the machine
looks ahead, nothing is reported later than it is found, and the end of the source comes in
only when it is reached.

The one exception is a run of digits and points, which goes on as long as it can: what is
put behind may not start with a digit or a point if the source ends in one.
-/

namespace InfixArithmetic

set_option autoImplicit false

section Side

variable {σ β : Type} [OperandSide σ β]

/-- Whether a source fails before its end: it cannot be read, or one of the tokens before
the end stops a fresh machine. -/
def FailsWithin (side : σ) (source : String) : Prop :=
  (∃ error, readTokens source = .error error) ∨
    ∃ tokens final front token place failure,
      readTokens source = .ok (tokens ++ [(.endOfInput, final)]) ∧
        (Machine.start side).StopsAt (β := β) tokens front token place failure

/-- A source that fails before its end fails in the same way with more text behind it,
whatever the operand side. -/
theorem FailsWithin.run_append {side : σ} {source more : String}
    (fails : FailsWithin (β := β) side source)
    (parted : StartsRun source.toList ∨ EndsRun more.toList) :
    ∃ failure, (run (β := β) side (items source)).answer = .error failure ∧
      (run (β := β) side (items (source ++ more))).answer = .error failure := by
  obtain ⟨lexemes, ⟨final, splits⟩ | ⟨error, faulty⟩⟩ := splits_or_faulty source.toList 0
  · obtain ⟨error, refused⟩ | ⟨tokens, last, front, token, place, failure, read, stops⟩ := fails
    · cases (readTokens_of_splits splits).symm.trans refused
    · have same := Except.ok.inj ((readTokens_of_splits splits).symm.trans read)
      obtain ⟨rfl, -⟩ := List.append_inj' same rfl
      refine ⟨failure, ?_, ?_⟩
      · rw [items_of_splits splits, endedStream_eq]
        exact runFrom_of_stopsAt stops 0 _
      · rw [splits.items_append parted]
        exact runFrom_of_stopsAt stops 0 _
  · have noEnd : ∀ placed ∈ tokensAfter none lexemes, placed.1 ≠ .endOfInput :=
      ne_endOfInput_of_mem_tokensAfter
    obtain ⟨failure, failed⟩ := runFrom_of_scanError (β := β) error noEnd (Machine.start side) 0
    exact ⟨failure, by rw [items_of_faulty faulty]; exact failed,
      by rw [faulty.items_append parted]; exact failed⟩

end Side

/-- **Text behind a failure is not looked at.**  A source that fails before its end has one
and the same error for its value, and for its reverse Polish order, whatever text is put
behind it, as long as no run of digits and points goes on from the source to that text. -/
theorem failure_ignores_continuation (source more : String)
    (parted : StartsRun source.toList ∨ EndsRun more.toList) :
    (FailsWithin ({} : ValueStack) source →
        ∃ failure, evaluate source = .error failure ∧
          evaluate (source ++ more) = .error failure) ∧
      (FailsWithin ({} : ReversePolish) source →
        ∃ failure, toReversePolish source = .error failure ∧
          toReversePolish (source ++ more) = .error failure) :=
  ⟨fun fails => fails.run_append parted, fun fails => fails.run_append parted⟩

/-- The split of a division by zero, a parenthesis that closes nothing and a number. -/
theorem splits_closedNothing :
    Splits "1/0)2".toList 0
      [(.number 1, 0), (.slash, 1), (.number 0, 2), (.closing, 3), (.number 2, 4)] 5 := by
  have last : Splits ['2'] 4 [(.number 2, 4)] 5 :=
    .number ['2'] 2 nofun (List.forall_mem_singleton.mpr rfl) nofun (by decide) (.ended 5)
  have inner : Splits ['0', ')', '2'] 2 [(.number 0, 2), (.closing, 3), (.number 2, 4)] 5 :=
    .number ['0'] 0 nofun (List.forall_mem_singleton.mpr rfl) (endsRun_cons.mpr rfl) (by decide)
      (.symbol ')' .closing rfl last)
  exact .number ['1'] 1 nofun (List.forall_mem_singleton.mpr rfl) (endsRun_cons.mpr rfl)
    (by decide) (.symbol '/' .slash rfl inner)

/-- The parenthesis in `1/0)2` stops both machines, with different failures, and what follows
it is not looked at: neither the number nor a character behind the number that starts no
lexeme. -/
theorem failure_ignores_continuation_closedNothing :
    EndsRun "$".toList ∧
      FailsWithin ({} : ValueStack) "1/0)2" ∧ FailsWithin ({} : ReversePolish) "1/0)2" ∧
      evaluate ("1/0)2" ++ "$") = .error (.arithmetic (.divisionByZero 1)) ∧
      toReversePolish ("1/0)2" ++ "$") = .error (.grammar (.unmatchedClosing 3)) := by
  have ends : EndsRun "$".toList := endsRun_cons.mpr rfl
  have read := readTokens_of_splits splits_closedNothing
  have cut : ∃ back, tokensAfter none
      [(.number 1, 0), (.slash, 1), (.number 0, 2), (.closing, 3), (.number 2, 4)]
        = undefinedTokens ++ (.closing, 3) :: back := ⟨[(.binary .mul, 4), (.number 2, 4)], rfl⟩
  have fails : FailsWithin ({} : ValueStack) "1/0)2" :=
    .inr ⟨_, 5, _, .closing, 3, _, read, cut, accepts_undefinedTokens _, rfl⟩
  have failsWritten : FailsWithin ({} : ReversePolish) "1/0)2" :=
    .inr ⟨_, 5, _, .closing, 3, _, read, cut, accepts_undefinedTokens _, rfl⟩
  have value : evaluate "1/0)2" = .error (.arithmetic (.divisionByZero 1)) := by
    rw [evaluate, items_of_splits splits_closedNothing]
    rfl
  have written : toReversePolish "1/0)2" = .error (.grammar (.unmatchedClosing 3)) := by
    rw [toReversePolish, items_of_splits splits_closedNothing]
    rfl
  obtain ⟨ofValue, ofWritten⟩ := failure_ignores_continuation "1/0)2" "$" (.inr ends)
  obtain ⟨failure, failed, longer⟩ := ofValue fails
  obtain ⟨refusal, refused, longerWritten⟩ := ofWritten failsWritten
  cases value.symm.trans failed
  cases written.symm.trans refused
  exact ⟨ends, fails, failsWritten, longer, longerWritten⟩

end InfixArithmetic
