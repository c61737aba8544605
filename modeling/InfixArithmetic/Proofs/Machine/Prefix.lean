import InfixArithmetic.Proofs.Machine.Steps

/-!
# How far a run looks

A run takes items one by one and stops at the first that settles it.  At the latest this is
the first error or end among them, so whatever comes behind that item does not matter
(`runFrom_untilSettled`).  A run that a token stops does not even look as far as that
(`runFrom_of_stopsAt`), and where it has accepted some tokens the answer is that of the
machine behind them (`runFrom_of_accepts`).

A stream of tokens that runs out is ended at the place of its last token, as if the end
stood there (`runFrom_endedStream`).
-/

namespace InfixArithmetic

set_option autoImplicit false

/-! ## Items that settle a run -/

/-- Whether no run goes on behind an item, which is an error or the end. -/
def settles : Item → Bool
  | .error _ | .ok (.endOfInput, _) => true
  | .ok (.number _, _) | .ok (.binary _, _) | .ok (.sign _, _) | .ok (.opening, _)
  | .ok (.closing, _) => false

/-- The items up to the first error or end, and that one as well. -/
def untilSettled : List Item → List Item
  | [] => []
  | item :: rest => if settles item then [item] else item :: untilSettled rest

/-- The place of the last of placed tokens, or one given if there is none. -/
def lastPlace (position : Nat) (tokens : List (Token × Nat)) : Nat :=
  (tokens.getLast?.map Prod.snd).getD position

theorem lastPlace_cons (position place : Nat) (token : Token) (rest : List (Token × Nat)) :
    lastPlace position ((token, place) :: rest) = lastPlace place rest := by
  cases rest with
  | nil => rfl
  | cons other others => simp [lastPlace, List.getLast?_cons]

theorem lastPlace_concat (position place : Nat) (front : List (Token × Nat)) (token : Token) :
    lastPlace position (front ++ [(token, place)]) = place := by
  simp [lastPlace]

theorem settles_cases {item : Item} (settled : settles item = true) :
    (∃ error, item = .error error) ∨ ∃ position, item = .ok (.endOfInput, position) := by
  obtain error | ⟨token, position⟩ := item
  · exact .inl ⟨error, rfl⟩
  · cases token with
    | endOfInput => exact .inr ⟨position, rfl⟩
    | number | binary | sign | opening | closing => cases settled

section Runs

variable {σ β : Type} [OperandSide σ β] {machine : Machine σ}

/-- Behind an item that settles it, a run does not look. -/
theorem runFrom_of_settles {item : Item} (settled : settles item = true) (machine : Machine σ)
    (position : Nat) (rest : List Item) :
    runFrom (β := β) machine position (item :: rest) = runFrom machine position [item] := by
  obtain ⟨error, rfl⟩ | ⟨place, rfl⟩ := settles_cases settled
  · rfl
  · rw [runFrom_endOfInput, runFrom_endOfInput]

theorem runFrom_cons_congr {token : Token} {place : Nat} {stream other : List Item}
    (later : ∀ machine : Machine σ,
      runFrom (β := β) machine place stream = runFrom machine place other)
    (machine : Machine σ) (position : Nat) :
    runFrom (β := β) machine position (.ok (token, place) :: stream)
      = runFrom machine position (.ok (token, place) :: other) := by
  cases answered : (machine.step (β := β) token place).answer with
  | error failure => rw [runFrom_of_error answered, runFrom_of_error answered]
  | ok result =>
      cases result with
      | some value => rw [runFrom_of_some answered, runFrom_of_some answered]
      | none => rw [runFrom_of_none answered, runFrom_of_none answered, later]

/-- **A run looks no further than the first error or end.** -/
theorem runFrom_untilSettled (machine : Machine σ) (position : Nat) (stream : List Item) :
    runFrom (β := β) machine position (untilSettled stream) = runFrom machine position stream := by
  induction stream generalizing machine position with
  | nil => rfl
  | cons item rest ih =>
      rw [untilSettled]
      split
      · exact (runFrom_of_settles ‹_› machine position rest).symm
      · obtain error | ⟨token, place⟩ := item
        · exact absurd rfl ‹¬ settles (.error error) = true›
        · exact runFrom_cons_congr (fun later => ih later place) machine position

/-- **A stream of tokens that runs out is ended at the place of its last token.** -/
theorem runFrom_endedStream (machine : Machine σ) (position : Nat)
    (tokens : List (Token × Nat)) :
    runFrom (β := β) machine position (endedStream tokens (lastPlace position tokens))
      = runFrom machine position (streamOf tokens) := by
  induction tokens generalizing machine position with
  | nil => exact runFrom_endOfInput machine position position []
  | cons placed rest ih =>
      obtain ⟨token, place⟩ := placed
      rw [lastPlace_cons]
      exact runFrom_cons_congr (fun later => ih later place) machine position

/-! ## Runs behind accepted tokens -/

/-- **Behind accepted tokens the answer is that of the machine behind them**, at the place of
the last one. -/
theorem runFrom_of_accepts {tokens : List (Token × Nat)}
    (accepts : machine.Accepts (β := β) tokens) (position : Nat) (rest : List Item) :
    (runFrom (β := β) machine position (streamOf tokens ++ rest)).answer
      = (runFrom (machine.after (β := β) tokens) (lastPlace position tokens) rest).answer := by
  induction tokens generalizing machine position with
  | nil => rfl
  | cons placed others ih =>
      obtain ⟨token, place⟩ := placed
      obtain ⟨first, accepts⟩ := Machine.accepts_cons.mp accepts
      rw [streamOf, List.map_cons, List.cons_append, runFrom_of_none first, lastPlace_cons]
      exact ih accepts place

/-- **Where a token stops a run, the answer is its failure**, whatever comes behind. -/
theorem runFrom_of_stopsAt {tokens front : List (Token × Nat)} {token : Token} {place : Nat}
    {failure : Failure} (stops : machine.StopsAt (β := β) tokens front token place failure)
    (position : Nat) (rest : List Item) :
    (runFrom (β := β) machine position (streamOf tokens ++ rest)).answer = .error failure := by
  obtain ⟨back, rfl⟩ := stops.cut
  have answered := runFrom_of_accepts stops.accepts position
    (.ok (token, place) :: (streamOf back ++ rest))
  rw [runFrom_of_error stops.failed] at answered
  rw [streamOf, List.map_append, List.append_assoc]
  exact answered

theorem runFrom_of_accepts_scanError {tokens : List (Token × Nat)}
    (accepts : machine.Accepts (β := β) tokens) (position : Nat) (error : ScanError)
    (rest : List Item) :
    (runFrom (β := β) machine position (streamOf tokens ++ .error error :: rest)).answer
      = .error (.scan error) :=
  runFrom_of_accepts accepts position (.error error :: rest)

end Runs

end InfixArithmetic
