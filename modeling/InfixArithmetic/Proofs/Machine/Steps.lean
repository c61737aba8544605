import InfixArithmetic.Proofs.Machine.Balance
import InfixArithmetic.Proofs.TokenStream.Lexemes

/-!
# The machine behind tokens

A machine can be given tokens one after another, whatever comes of them, and
`Machine.after` is the machine behind them.  As long as every token is accepted, three
things about that machine can be read off the tokens, for every operand side: the token
accepted last, what has to come next, and the parentheses that are open.  So the bit of
grammar that the machine keeps is nothing but a function of the last token, and the
boundaries on its stack are the parentheses that were opened and not yet closed
(`Machine.Tracks.after`).

A run that fails stops at its first item that is not accepted, and everything before that
item is accepted (`exists_stop_of_runFrom`).
-/

namespace InfixArithmetic

set_option autoImplicit false

/-! ## What tokens leave behind -/

/-- The last of placed tokens. -/
def lastToken (tokens : List (Token × Nat)) : Option Token :=
  tokens.getLast?.map Prod.fst

@[simp] theorem lastToken_nil : lastToken [] = none := rfl

@[simp] theorem lastToken_concat (tokens : List (Token × Nat)) (token : Token) (position : Nat) :
    lastToken (tokens ++ [(token, position)]) = some token := by
  simp [lastToken]

theorem lastToken_cons (token : Token) (position : Nat) (rest : List (Token × Nat)) :
    lastToken ((token, position) :: rest) = (lastToken rest).or (some token) := by
  cases rest with
  | nil => rfl
  | cons placed others => simp [lastToken, List.getLast?_cons]

/-- The places of open parentheses behind one more token, the innermost first. -/
def openBehind (opened : List Nat) : Token × Nat → List Nat
  | (.opening, position) => position :: opened
  | (.closing, _) => opened.tail
  | (.number _, _) | (.binary _, _) | (.sign _, _) | (.endOfInput, _) => opened

/-- The places of the parentheses that tokens open and do not close, the innermost
first. -/
def openGroups (tokens : List (Token × Nat)) : List Nat :=
  tokens.foldl openBehind []

@[simp] theorem openGroups_nil : openGroups [] = [] := rfl

/-- What has to come next behind a token, or at the start. -/
def Expectation.behind (latest : Option Token) : Expectation :=
  if awaitsAfter latest then .operand else .operator

theorem Expectation.behind_eq_operand_iff {latest : Option Token} :
    Expectation.behind latest = .operand ↔ awaitsAfter latest = true := by
  rw [behind]
  cases awaitsAfter latest <;> decide

/-! ## Boundaries on the stack -/

/-- The places of the boundaries among pending operators. -/
def boundaries (waiting : List Pending) : List Nat :=
  (waiting.filter Pending.isBoundary).map Pending.position

/-- Taking entries off that are no boundaries leaves the boundaries. -/
theorem boundaries_dropWhile {test : Pending → Bool}
    (inside : ∀ entry, test entry = true → entry.isBoundary = false) (waiting : List Pending) :
    boundaries (waiting.dropWhile test) = boundaries waiting := by
  induction waiting with
  | nil => rfl
  | cons top below ih =>
      by_cases passes : test top = true
      · rw [List.dropWhile_cons_of_pos passes, ih, boundaries, boundaries,
          List.filter_cons_of_neg (by simp [inside top passes])]
      · rw [List.dropWhile_cons_of_neg passes]

theorem not_isBoundary_of_not {entry : Pending} (inside : (!entry.isBoundary) = true) :
    entry.isBoundary = false :=
  (Bool.not_eq_true' _).mp inside

theorem boundaries_eq_cons {waiting below : List Pending} {boundary : Pending}
    (found : waiting.dropWhile (!·.isBoundary) = boundary :: below) :
    boundaries waiting = boundary.position :: boundaries below := by
  have stops := List.head?_dropWhile_not (!·.isBoundary) waiting
  rw [found] at stops
  have isBoundary : boundary.isBoundary = true := by simpa using stops
  rw [← boundaries_dropWhile (fun _ => not_isBoundary_of_not) waiting, found, boundaries,
    List.filter_cons_of_pos isBoundary]
  rfl

theorem boundaries_eq_nil {waiting : List Pending}
    (missing : waiting.dropWhile (!·.isBoundary) = []) : boundaries waiting = [] := by
  rw [← boundaries_dropWhile (fun _ => not_isBoundary_of_not) waiting, missing]
  rfl

namespace Machine

variable {σ β : Type} [OperandSide σ β]

/-! ## Tokens one after another -/

/-- The machine behind placed tokens, whatever came of each of them. -/
def after (machine : Machine σ) : List (Token × Nat) → Machine σ
  | [] => machine
  | (token, position) :: rest => (machine.step (β := β) token position).machine.after rest

/-- Every one of placed tokens is accepted, and so none of them is the end. -/
def Accepts (machine : Machine σ) (tokens : List (Token × Nat)) : Prop :=
  ∀ step ∈ machine.steps (β := β) tokens, step.answer = .ok none

theorem accepts_nil (machine : Machine σ) : machine.Accepts [] :=
  List.forall_mem_nil _

theorem accepts_cons {machine : Machine σ} {token : Token} {position : Nat}
    {rest : List (Token × Nat)} :
    machine.Accepts ((token, position) :: rest) ↔
      (machine.step (β := β) token position).answer = .ok none ∧
        (machine.step (β := β) token position).machine.Accepts rest :=
  List.forall_mem_cons

theorem after_append (machine : Machine σ) (front back : List (Token × Nat)) :
    machine.after (β := β) (front ++ back)
      = (machine.after (β := β) front).after (β := β) back := by
  induction front generalizing machine with
  | nil => rfl
  | cons placed rest ih => exact ih _

/-- Tokens one behind the other are accepted if the first ones are and, behind them, the
second ones. -/
theorem accepts_append {machine : Machine σ} {front back : List (Token × Nat)} :
    machine.Accepts (β := β) (front ++ back) ↔
      machine.Accepts (β := β) front ∧ (machine.after (β := β) front).Accepts (β := β) back := by
  induction front generalizing machine with
  | nil => exact (and_iff_right machine.accepts_nil).symm
  | cons placed rest ih =>
      rw [List.cons_append, accepts_cons, accepts_cons, ih, and_assoc]
      rfl

/-- Of placed tokens the first that is answered with a failure: everything before it is
accepted. -/
structure StopsAt (machine : Machine σ) (tokens front : List (Token × Nat)) (token : Token)
    (place : Nat) (failure : Failure) : Prop where
  cut : ∃ back, tokens = front ++ (token, place) :: back
  accepts : machine.Accepts front
  failed : ((machine.after front).step (β := β) token place).answer = .error failure

/-- The stack of pending operators behind an accepted token. -/
def waitingBehind (machine : Machine σ) (token : Token) (position : Nat) : List Pending :=
  match token with
  | .number _ | .endOfInput => machine.waiting
  | .opening => .of .opening position :: machine.waiting
  | .sign _ | .binary _ =>
      .of token position :: machine.waiting.dropWhile (·.goesBefore (.of token position))
  | .closing => (machine.waiting.dropWhile (!·.isBoundary)).tail

theorem takeOperator_of_accepted {machine : Machine σ} {token : Token} {position : Nat}
    (accepted : (machine.takeOperator (β := β) token position).answer = .ok none) :
    ∃ side, (machine.takeOperator (β := β) token position).machine =
      { side := side
        waiting := .of token position ::
          machine.waiting.dropWhile (·.goesBefore (.of token position))
        expectation := .operand
        latest := some token } := by
  cases replayed : OperandSide.replay machine.side (machine.callsBefore (.of token position)) with
  | ok later => exact ⟨later, by rw [machine.takeOperator_of_replay_ok replayed]⟩
  | error failure =>
      rw [machine.takeOperator_of_replay_error replayed] at accepted
      cases accepted

theorem leaveGroup_of_accepted {machine : Machine σ} {position : Nat}
    (accepted : (machine.leaveGroup (β := β) position).answer = .ok none) :
    ∃ side, (machine.leaveGroup (β := β) position).machine =
      { side := side
        waiting := (machine.waiting.dropWhile (!·.isBoundary)).tail
        expectation := .operator
        latest := some .closing } := by
  cases replayed : OperandSide.replay machine.side machine.callsInside with
  | ok later =>
      cases dropped : machine.waiting.dropWhile (!·.isBoundary) with
      | nil =>
          rw [machine.leaveGroup_of_unmatched replayed dropped] at accepted
          cases accepted
      | cons boundary below =>
          exact ⟨later, by rw [machine.leaveGroup_of_replay_ok replayed dropped, List.tail_cons]⟩
  | error failure =>
      rw [machine.leaveGroup_of_replay_error replayed] at accepted
      cases accepted

theorem ne_endOfInput_of_accepted {machine : Machine σ} {token : Token} {position : Nat}
    (accepted : (machine.step (β := β) token position).answer = .ok none) :
    token ≠ .endOfInput := by
  rintro rfl
  rw [step_endOfInput, Step.map] at accepted
  split at accepted <;> cases accepted

/-- **Everything that an accepted token does.**  Only the operand side depends on more than
the token and the stack. -/
theorem step_of_accepted {machine : Machine σ} {token : Token} {position : Nat}
    (accepted : (machine.step (β := β) token position).answer = .ok none) :
    machine.expectation = token.place ∧
      ∃ side, (machine.step (β := β) token position).machine =
        { side := side
          waiting := machine.waitingBehind token position
          expectation := .behind (some token)
          latest := some token } := by
  have notEnd := ne_endOfInput_of_accepted accepted
  by_cases placed : machine.expectation = token.place
  · refine ⟨placed, ?_⟩
    rw [step_of_placed placed] at accepted ⊢
    cases token with
    | number value => exact ⟨_, rfl⟩
    | opening =>
        refine ⟨machine.side, ?_⟩
        rw [accept, enterGroup, placed]
        rfl
    | sign polarity => exact takeOperator_of_accepted accepted
    | binary op => exact takeOperator_of_accepted accepted
    | closing => exact leaveGroup_of_accepted accepted
    | endOfInput => exact absurd rfl notEnd
  · rw [step_of_misplaced machine token position placed] at accepted
    cases accepted

theorem ne_endOfInput_of_accepts {machine : Machine σ} {tokens : List (Token × Nat)}
    (accepts : machine.Accepts tokens) : ∀ placed ∈ tokens, placed.1 ≠ .endOfInput := by
  induction tokens generalizing machine with
  | nil => exact List.forall_mem_nil _
  | cons placed rest ih =>
      obtain ⟨token, position⟩ := placed
      obtain ⟨first, others⟩ := accepts_cons.mp accepts
      exact List.forall_mem_cons.mpr ⟨ne_endOfInput_of_accepted first, ih others⟩

theorem exists_stop_of_not_accepts {machine : Machine σ} {tokens : List (Token × Nat)}
    (noEnd : ∀ placed ∈ tokens, placed.1 ≠ .endOfInput) (refused : ¬ machine.Accepts tokens) :
    ∃ front token place failure, machine.StopsAt tokens front token place failure := by
  induction tokens generalizing machine with
  | nil => exact absurd machine.accepts_nil refused
  | cons placed rest ih =>
      obtain ⟨token, position⟩ := placed
      obtain ⟨notEnd, restNoEnd⟩ := List.forall_mem_cons.mp noEnd
      cases answered : (machine.step (β := β) token position).answer with
      | error failure =>
          exact ⟨[], token, position, failure, ⟨rest, rfl⟩, machine.accepts_nil, answered⟩
      | ok result =>
          cases result with
          | some result => exact absurd (eq_endOfInput_of_some answered) notEnd
          | none =>
              obtain ⟨front, stop, place, failure, ⟨back, rfl⟩, accepts, failed⟩ :=
                ih restNoEnd fun others => refused (accepts_cons.mpr ⟨answered, others⟩)
              exact ⟨(token, position) :: front, stop, place, failure, ⟨back, rfl⟩,
                accepts_cons.mpr ⟨answered, accepts⟩, failed⟩

/-! ## What is known behind accepted tokens -/

/-- The machine has accepted a token last, knows what has to come next, and has
parentheses open. -/
structure Tracks (machine : Machine σ) (latest : Option Token) (opened : List Nat) : Prop where
  latest_eq : machine.latest = latest
  expectation_eq : machine.expectation = .behind latest
  opened_eq : boundaries machine.waiting = opened

theorem tracks_start (side : σ) : (start side).Tracks none [] :=
  ⟨rfl, rfl, rfl⟩

/-- What a misplaced token is answered with depends on the last token only. -/
theorem Tracks.answer_of_misplaced {machine : Machine σ} {latest : Option Token}
    {opened : List Nat} (tracks : machine.Tracks latest opened) {token : Token}
    (misplaced : Expectation.behind latest ≠ token.place) (position : Nat) :
    (machine.step (β := β) token position).answer
      = .error (.grammar (token.misplacement latest position)) := by
  rw [← tracks.expectation_eq] at misplaced
  rw [step_of_misplaced machine token position misplaced, ← tracks.latest_eq]
  rfl

theorem Tracks.step {machine : Machine σ} {latest : Option Token} {opened : List Nat}
    (tracks : machine.Tracks latest opened) {token : Token} {position : Nat}
    (accepted : (machine.step (β := β) token position).answer = .ok none) :
    (machine.step (β := β) token position).machine.Tracks (some token)
      (openBehind opened (token, position)) := by
  have notEnd := ne_endOfInput_of_accepted accepted
  obtain ⟨-, side, stepped⟩ := step_of_accepted accepted
  rw [stepped]
  refine ⟨rfl, rfl, ?_⟩
  have opened_eq := tracks.opened_eq
  show boundaries (machine.waitingBehind token position) = _
  cases token with
  | number value => exact opened_eq
  | opening => exact congrArg (position :: ·) opened_eq
  | sign polarity =>
      exact (boundaries_dropWhile (fun _ => Pending.not_isBoundary_of_goesBefore) _).trans opened_eq
  | binary op =>
      exact (boundaries_dropWhile (fun _ => Pending.not_isBoundary_of_goesBefore) _).trans opened_eq
  | closing =>
      rw [waitingBehind, openBehind, ← opened_eq]
      cases dropped : machine.waiting.dropWhile (!·.isBoundary) with
      | nil =>
          rw [boundaries_eq_nil dropped]
          rfl
      | cons boundary below =>
          rw [boundaries_eq_cons dropped]
          rfl
  | endOfInput => exact absurd rfl notEnd

/-- **Accepted tokens tell what the machine expects and which parentheses are open.** -/
theorem Tracks.after {machine : Machine σ} {latest : Option Token} {opened : List Nat}
    (tracks : machine.Tracks latest opened) {tokens : List (Token × Nat)}
    (accepts : machine.Accepts tokens) :
    (machine.after tokens).Tracks ((lastToken tokens).or latest)
      (tokens.foldl openBehind opened) := by
  induction tokens generalizing machine latest opened with
  | nil => exact tracks
  | cons placed rest ih =>
      obtain ⟨token, position⟩ := placed
      obtain ⟨first, others⟩ := accepts_cons.mp accepts
      have later := ih (tracks.step first) others
      rwa [lastToken_cons, Option.or_assoc, Option.some_or]

/-- A fresh machine behind accepted tokens. -/
theorem tracks_after (side : σ) {tokens : List (Token × Nat)}
    (accepts : (start side).Accepts tokens) :
    ((start side).after tokens).Tracks (lastToken tokens) (openGroups tokens) := by
  have tracks := (tracks_start side).after accepts
  rwa [Option.or_none] at tracks

end Machine

/-! ## Where a run fails -/

variable {σ β : Type} [OperandSide σ β]

/-- **A run that fails stops at the first item that is not accepted**: an error of the
stream, a token that the machine answers with the failure, or the end. -/
theorem exists_stop_of_runFrom {machine : Machine σ} {position : Nat} {stream : List Item}
    {failure : Failure} (failed : (runFrom machine position stream).answer = .error failure) :
    ∃ front rest, stream = streamOf front ++ rest ∧ machine.Accepts front ∧
      ((∃ error others, rest = .error error :: others ∧ failure = .scan error) ∨
        (∃ token place others, rest = .ok (token, place) :: others ∧
          ((machine.after front).step token place).answer = .error failure) ∨
        (rest = [] ∧ ∃ place, ((machine.after front).atEnd place).answer = .error failure)) := by
  induction stream generalizing machine position with
  | nil => exact ⟨[], [], rfl, machine.accepts_nil, .inr (.inr ⟨rfl, position, failed⟩)⟩
  | cons item rest ih =>
      obtain error | ⟨token, place⟩ := item
      · rw [runFrom_scanError] at failed
        cases failed
        exact ⟨[], _, rfl, machine.accepts_nil, .inl ⟨error, rest, rfl, rfl⟩⟩
      cases answered : (machine.step (β := β) token place).answer with
      | error other =>
          rw [runFrom_of_error answered] at failed
          cases failed
          exact ⟨[], _, rfl, machine.accepts_nil, .inr (.inl ⟨token, place, rest, rfl, answered⟩)⟩
      | ok result =>
          cases result with
          | some value =>
              rw [runFrom_of_some answered] at failed
              cases failed
          | none =>
              rw [runFrom_of_none answered] at failed
              obtain ⟨front, others, rfl, accepts, stops⟩ := ih failed
              exact ⟨(token, place) :: front, others, rfl,
                Machine.accepts_cons.mpr ⟨answered, accepts⟩, stops⟩

end InfixArithmetic
