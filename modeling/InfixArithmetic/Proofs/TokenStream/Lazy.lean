import InfixArithmetic.Proofs.Machine.Prefix
import InfixArithmetic.Proofs.TokenStream.Lossless

/-!
# Lazy and eager readings

A source can be read lazily, with the machine drawing from the stream itself and nothing
drawn once there is an answer (`TokenStream.drive`), or eagerly, with all tokens read first
and given to a machine then.  The answers are the same.  Only a source with a flaw makes a
difference, for then there are no tokens to give; the machine is given those before the
flaw, and if it accepts them all, the answer is the error for the flaw.

Main statement: `lazy_and_eager_agree`, for every source and for either of its readings.
It also says of streams from elsewhere how far a run looks and where it ends one that runs
out.
-/

namespace InfixArithmetic

set_option autoImplicit false

variable {σ β : Type} [OperandSide σ β]

/-! ## Drawing on demand -/

namespace TokenStream

/-- Runs a machine that draws the items of a stream itself, each one when it is needed. -/
def drive (machine : Machine σ) (position : Nat) (stream : TokenStream) : Run β :=
  match drawn : stream.next with
  | none => runFrom machine position []
  | some (emission, later) =>
      match emission.item with
      | .error error => ⟨.error (.scan error), [[]]⟩
      | .ok (token, place) =>
          let step : Step σ (Option β) := machine.step token place
          match step.answer with
          | .error failure => ⟨.error failure, [step.calls]⟩
          | .ok (some result) => ⟨.ok result, [step.calls]⟩
          | .ok none =>
              have := budget_next_lt drawn
              let others := drive step.machine place later
              ⟨others.answer, step.calls :: others.calls⟩
termination_by stream.budget

/-- **Drawing on demand makes no difference** to drawing everything first. -/
theorem drive_eq_runFrom (machine : Machine σ) (position : Nat) (stream : TokenStream) :
    drive (β := β) machine position stream
      = runFrom machine position (stream.emissions.map Emission.item) := by
  fun_induction drive machine position stream with
  | case1 machine position stream ended => rw [emissions_of_next_none ended, List.map_nil]
  | case2 machine position stream emission later drawn error isError =>
      rw [emissions_of_next_some drawn, List.map_cons, isError, runFrom_scanError]
  | case3 machine position stream emission later drawn token place isToken step failure failed =>
      rw [emissions_of_next_some drawn, List.map_cons, isToken, runFrom_of_error failed]
  | case4 machine position stream emission later drawn token place isToken step result ended =>
      rw [emissions_of_next_some drawn, List.map_cons, isToken, runFrom_of_some ended]
  | case5 machine position stream emission later drawn token place isToken step accepted _ others
      ih =>
    rw [emissions_of_next_some drawn, List.map_cons, isToken, runFrom_of_none accepted, ← ih]

end TokenStream

/-! ## Answers for sources -/

/-- How the answer for a source, with an operand side, comes out of the tokens of the
source. -/
structure AgreesWithTokens (side : σ) (source : String) (answer : Except Failure β) : Prop where
  /-- It is found while the tokens are drawn. -/
  drawn : answer = ((TokenStream.ofText source).drive (Machine.start side) 0).answer
  /-- If the source can be read, it is the answer for its tokens. -/
  read : ∀ tokens, readTokens source = .ok tokens → answer = (run side (streamOf tokens)).answer
  /-- If the source cannot be read, it is the failure that stops a machine over the tokens
  before the error, or the error if none does. -/
  refused : ∀ error, readTokens source = .error error →
    ∃ tokens, items source = streamOf tokens ++ [.error error] ∧
      (∀ front token place failure,
        (Machine.start side).StopsAt (β := β) tokens front token place failure →
          answer = .error failure) ∧
      ((¬ ∃ front token place failure,
          (Machine.start side).StopsAt (β := β) tokens front token place failure) →
        answer = .error (.scan error))
  /-- There is a result only if the source can be read. -/
  readable : ∀ value, answer = .ok value → ∃ tokens, readTokens source = .ok tokens

/-- A run over the items of a source agrees with its tokens, whatever the operand side. -/
theorem agreesWithTokens_run (side : σ) (source : String) :
    AgreesWithTokens side source (run (β := β) side (items source)).answer := by
  have drawn : (run (β := β) side (items source)).answer
      = ((TokenStream.ofText source).drive (Machine.start side) 0).answer :=
    congrArg Run.answer (TokenStream.drive_eq_runFrom (Machine.start side) 0 _).symm
  obtain ⟨lexemes, ⟨final, splits⟩ | ⟨error, faulty⟩⟩ := splits_or_faulty source.toList 0
  · have read := readTokens_of_splits splits
    refine ⟨drawn, fun tokens readOther => ?_, fun error refused => ?_, fun _ _ => ⟨_, read⟩⟩
    · cases read.symm.trans readOther
      rw [items_of_splits splits, endedStream]
    · cases read.symm.trans refused
  · have refused := readTokens_of_faulty faulty
    have noEnd : ∀ placed ∈ tokensAfter none lexemes, placed.1 ≠ .endOfInput :=
      ne_endOfInput_of_mem_tokensAfter
    rw [items_of_faulty faulty] at drawn ⊢
    refine ⟨drawn, fun tokens read => ?_, fun other refusedOther => ?_, fun value answered => ?_⟩
    · cases refused.symm.trans read
    · cases refused.symm.trans refusedOther
      refine ⟨_, items_of_faulty faulty, fun front token place failure stops => ?_,
        fun goesOn => ?_⟩
      · exact runFrom_of_stopsAt stops 0 _
      · have accepts : (Machine.start side).Accepts (β := β) (tokensAfter none lexemes) :=
          not_imp_comm.mp (Machine.exists_stop_of_not_accepts noEnd) goesOn
        exact runFrom_of_accepts_scanError accepts 0 error []
    · obtain ⟨failure, failed⟩ := runFrom_of_scanError (β := β) error noEnd (Machine.start side) 0
      cases answered.symm.trans failed

/-- **Lazy and eager readings agree.**  The value of a source and its reverse Polish order,
which are found while tokens are drawn, are what a fresh machine answers to the tokens of
the source.  Where there is an error in reading, the failure of an earlier token goes first,
and so there is a result only if the whole source can be read.

A run over any stream, with any operand side, looks no further than the first error or end,
and a stream of tokens that runs out is ended at the place of the last one. -/
theorem lazy_and_eager_agree :
    (∀ source : String,
      AgreesWithTokens ({} : ValueStack) source (evaluate source) ∧
        AgreesWithTokens ({} : ReversePolish) source (toReversePolish source)) ∧
      ∀ (σ β : Type) [OperandSide σ β] (side : σ),
        (∀ stream, run (β := β) side (untilSettled stream) = run side stream) ∧
          ∀ tokens, run (β := β) side (endedStream tokens (lastPlace 0 tokens))
            = run side (streamOf tokens) :=
  ⟨fun source => ⟨agreesWithTokens_run ({} : ValueStack) source,
      agreesWithTokens_run ({} : ReversePolish) source⟩,
    fun _ _ _ side => ⟨runFrom_untilSettled (Machine.start side) 0,
      runFrom_endedStream (Machine.start side) 0⟩⟩

/-- The tokens of `1/0`. -/
def undefinedTokens : List (Token × Nat) :=
  [(.number 1, 0), (.binary .div, 1), (.number 0, 2)]

/-- The tokens of `1/0` are accepted with any operand side, for the division waits. -/
theorem accepts_undefinedTokens (side : σ) :
    (Machine.start side).Accepts (β := β) undefinedTokens := by
  simp only [undefinedTokens, Machine.accepts_cons]
  exact ⟨rfl, rfl, rfl, Machine.accepts_nil _⟩

theorem faulty_thriceWrong :
    Faulty "1/0)$".toList 0 [(.number 1, 0), (.slash, 1), (.number 0, 2), (.closing, 3)]
      (.unexpectedCharacter '$' 4) := by
  have last : Faulty [')', '$'] 3 [(.closing, 3)] (.unexpectedCharacter '$' 4) :=
    .symbol ')' .closing rfl (.character '$' rfl rfl rfl)
  have inner : Faulty ['0', ')', '$'] 2 [(.number 0, 2), (.closing, 3)]
      (.unexpectedCharacter '$' 4) :=
    .number ['0'] 0 nofun (List.forall_mem_singleton.mpr rfl) (endsRun_cons.mpr rfl) (by decide)
      last
  exact .number ['1'] 1 nofun (List.forall_mem_singleton.mpr rfl) (endsRun_cons.mpr rfl)
    (by decide) (.symbol '/' .slash rfl inner)

/-- In `1/0)$` a division by zero, a parenthesis that closes nothing and a character that
starts no lexeme lie ahead.  The parenthesis has the division applied, so this is the error
of the value; the reverse Polish order stops at the parenthesis; and only who wants all
tokens gets as far as the character. -/
theorem lazy_and_eager_agree_thriceWrong :
    readTokens "1/0)$" = .error (.unexpectedCharacter '$' 4) ∧
      evaluate "1/0)$" = .error (.arithmetic (.divisionByZero 1)) ∧
      toReversePolish "1/0)$" = .error (.grammar (.unmatchedClosing 3)) := by
  have refused := readTokens_of_faulty faulty_thriceWrong
  have given : ∀ tokens, items "1/0)$" = streamOf tokens ++ [.error (.unexpectedCharacter '$' 4)] →
      tokens = undefinedTokens ++ [(.closing, 3)] := by
    intro tokens items_eq
    have same := (List.append_inj' (items_eq.symm.trans (items_of_faulty faulty_thriceWrong)) rfl).1
    exact streamOf_injective same
  obtain ⟨agrees, agreesWritten⟩ := lazy_and_eager_agree.1 "1/0)$"
  refine ⟨refused, ?_, ?_⟩
  · obtain ⟨tokens, items_eq, stopped, -⟩ := agrees.refused _ refused
    exact stopped undefinedTokens .closing 3 _
      ⟨⟨[], given tokens items_eq⟩, accepts_undefinedTokens _, rfl⟩
  · obtain ⟨tokens, items_eq, stopped, -⟩ := agreesWritten.refused _ refused
    exact stopped undefinedTokens .closing 3 _
      ⟨⟨[], given tokens items_eq⟩, accepts_undefinedTokens _, rfl⟩

end InfixArithmetic
