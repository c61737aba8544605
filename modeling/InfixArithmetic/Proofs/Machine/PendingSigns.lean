import InfixArithmetic.Proofs.Machine.Counting
import InfixArithmetic.Proofs.Machine.Nested

/-!
# Signs that wait

A sign waits for the operand behind it, and nothing goes before a sign.  So signs that stand
behind each other pile up, below further signs and below whole groups, until their operand is
complete; then what comes next, an operator, a closing parenthesis or the end, has all of them
applied at once, the last one first.  No one looks at them before, and then they are gone.

So a pile of signs can take the place of another one that does the same to every number
(`SameWork`).  Two machines that differ in this way go on alike, step by step
(`Machine.WorksAs.step`), as long as either of them has not failed, and have the same value in
the end (`Machine.WorksAs.runFrom`).  What is asked of the values is that there is one when an
operator has to come, and a balanced machine has it.
-/

namespace InfixArithmetic

set_option autoImplicit false

open OperandSide

/-! ## Piles of signs -/

/-- Signs with their places, as tokens. -/
def signTokens (signs : List (Sign × Nat)) : List (Token × Nat) :=
  signs.map fun sign => (.sign sign.1, sign.2)

/-- Signs with their places, as they wait. -/
def signEntries (signs : List (Sign × Nat)) : List Pending :=
  signs.map fun sign => .of (.sign sign.1) sign.2

/-- What becomes of a number when signs are applied to it, the first one first. -/
def signedBy (signs : List (Sign × Nat)) (value : Float) : Float :=
  signs.foldl (fun operand sign => sign.1.apply operand) value

/-- A test that every sign passes and no boundary. -/
structure ReachesSigns (test : Pending → Bool) : Prop where
  passes : ∀ polarity position, test (.of (.sign polarity) position) = true
  stops : ∀ opening, test (.of .opening opening) = false

/-- A binary operator has all signs applied before it. -/
theorem reachesSigns_goesBefore (op : BinaryOp) (position : Nat) :
    ReachesSigns (·.goesBefore (.of (.binary op) position)) where
  passes _ _ := by cases op <;> rfl
  stops _ := rfl

/-- So do a closing parenthesis and the end. -/
theorem reachesSigns_inside : ReachesSigns (!·.isBoundary) where
  passes _ _ := rfl
  stops _ := rfl

namespace ReachesSigns

variable {test : Pending → Bool}

theorem dropWhile_signEntries (reaches : ReachesSigns test) (signs : List (Sign × Nat))
    (below : List Pending) :
    (signEntries signs ++ below).dropWhile test = below.dropWhile test := by
  refine List.dropWhile_append_of_pos ?_
  intro entry member
  obtain ⟨sign, -, rfl⟩ := List.mem_map.mp member
  exact reaches.passes sign.1 sign.2

/-- A pile of signs is applied to the value on top. -/
theorem replay_signEntries (reaches : ReachesSigns test) (signs : List (Sign × Nat))
    (below : List Pending) (stack : ValueStack) (operand : Float) :
    replay (stack.push operand) (callsWhile test (signEntries signs ++ below))
      = replay (stack.push (signedBy signs operand)) (callsWhile test below) := by
  induction signs generalizing operand with
  | nil => rfl
  | cons sign rest ih =>
      obtain ⟨polarity, position⟩ := sign
      have applied := stack.apply_sign operand polarity position
      rw [signEntries, List.map_cons, List.cons_append, callsWhile_of_pass (reaches.passes _ _),
        replay_apply_of_ok applied]
      exact ih (polarity.apply operand)

end ReachesSigns

/-! ## Stacks that do the same -/

/-- Two stacks of pending operators that differ in a pile of signs, on top or right below a
boundary, and in nothing that matters. -/
inductive SameWork : List Pending → List Pending → Prop where
  /-- The piles on top do the same to every number. -/
  | signs {left right : List (Sign × Nat)}
      (alike : ∀ value, signedBy left value = signedBy right value) (below : List Pending) :
    SameWork (signEntries left ++ below) (signEntries right ++ below)
  /-- The difference is outside of a group. -/
  | group {left right : List Pending} (inside : List Pending) (opening : Nat)
      (outside : SameWork left right) :
    SameWork (inside ++ .of .opening opening :: left) (inside ++ .of .opening opening :: right)

/-- Two stacks that differ outside of a group, or not at all. -/
inductive SameInside : List Pending → List Pending → Prop where
  | same (waiting : List Pending) : SameInside waiting waiting
  | group {left right : List Pending} (inside : List Pending) (opening : Nat)
      (outside : SameWork left right) :
    SameInside (inside ++ .of .opening opening :: left) (inside ++ .of .opening opening :: right)

namespace SameInside

variable {left right : List Pending}

theorem sameWork (same : SameInside left right) : SameWork left right := by
  cases same with
  | same => exact @SameWork.signs [] [] (fun _ => rfl) left
  | group inside opening outside => exact .group inside opening outside

theorem cons (same : SameInside left right) (top : Pending) :
    SameInside (top :: left) (top :: right) := by
  cases same with
  | same => exact .same _
  | group inside opening outside => exact .group (top :: inside) opening outside

theorem exists_of_cons {top : Pending} (same : SameInside (top :: left) right) :
    ∃ below, right = top :: below ∧ SameWork left below := by
  generalize whole : top :: left = stack at same
  cases same with
  | same =>
      subst whole
      exact ⟨left, rfl, (SameInside.same left).sameWork⟩
  | @group _ other inside opening outside =>
      cases inside with
      | nil =>
          cases whole
          exact ⟨other, rfl, outside⟩
      | cons first inside =>
          cases whole
          exact ⟨_, rfl, .group inside opening outside⟩

theorem eq_nil (same : SameInside [] right) : right = [] := by
  generalize none : [] = stack at same
  cases same with
  | same => rfl
  | group inside opening outside =>
      exact absurd none.symm (List.append_ne_nil_of_right_ne_nil inside nofun)

end SameInside

namespace SameWork

variable {left right : List Pending}

theorem symm (same : SameWork left right) : SameWork right left := by
  induction same with
  | signs alike below => exact .signs (fun value => (alike value).symm) below
  | group inside opening outside ih => exact .group inside opening ih

theorem sign (same : SameWork left right) (polarity : Sign) (position : Nat) :
    SameWork (.of (.sign polarity) position :: left) (.of (.sign polarity) position :: right) := by
  cases same with
  | @signs left right alike below =>
      show SameWork (signEntries ((polarity, position) :: left) ++ below)
        (signEntries ((polarity, position) :: right) ++ below)
      exact .signs (fun value => alike (polarity.apply value)) below
  | group inside opening outside =>
      exact .group (.of (.sign polarity) position :: inside) opening outside

variable {test : Pending → Bool}

/-- Whoever has signs applied has the difference applied with them. -/
theorem dropWhile (same : SameWork left right) (reaches : ReachesSigns test) :
    SameInside (left.dropWhile test) (right.dropWhile test) := by
  cases same with
  | signs alike below =>
      rw [reaches.dropWhile_signEntries, reaches.dropWhile_signEntries]
      exact .same _
  | group inside opening outside =>
      rw [dropWhile_append_of_stop (reaches.stops opening),
        dropWhile_append_of_stop (reaches.stops opening)]
      exact .group _ opening outside

/-- **What is applied from the two does the same**, if there is a value for the signs. -/
theorem replay_eq (same : SameWork left right) (reaches : ReachesSigns test) (stack : ValueStack)
    (operand : Float) :
    replay (stack.push operand) (callsWhile test left)
      = replay (stack.push operand) (callsWhile test right) := by
  cases same with
  | signs alike below => rw [reaches.replay_signEntries, reaches.replay_signEntries, alike]
  | group inside opening outside =>
      rw [callsWhile_append_of_stop (reaches.stops opening),
        callsWhile_append_of_stop (reaches.stops opening)]

end SameWork

/-! ## Machines that do the same -/

namespace Machine

/-- Two machines that differ in signs that wait, and in the token that they remember. -/
structure WorksAs (machine other : Machine ValueStack) : Prop where
  side_eq : other.side = machine.side
  expectation_eq : other.expectation = machine.expectation
  waiting : SameWork machine.waiting other.waiting

theorem WorksAs.symm {machine other : Machine ValueStack} (alike : machine.WorksAs other) :
    other.WorksAs machine :=
  ⟨alike.side_eq.symm, alike.expectation_eq.symm, alike.waiting.symm⟩

end Machine

/-- Whether another step succeeds if a step does, with the same answer and with a machine
that goes on alike. -/
def Step.MatchedBy {α : Type} (step other : Step ValueStack α) : Prop :=
  ∀ result, step.answer = .ok result →
    other.answer = .ok result ∧ step.machine.WorksAs other.machine

theorem Step.MatchedBy.map {α γ : Type} {step other : Step ValueStack α}
    (matched : step.MatchedBy other) (change : α → γ) :
    (step.map change).MatchedBy (other.map change) := by
  intro result answered
  rw [Step.map] at answered ⊢
  cases found : step.answer with
  | error failure =>
      rw [found] at answered
      cases answered
  | ok value =>
      rw [found] at answered
      obtain ⟨sameAnswer, alike⟩ := matched value found
      rw [sameAnswer]
      exact ⟨answered, alike⟩

namespace Machine

theorem Balanced.exists_operand {machine : Machine ValueStack}
    (balanced : machine.Balanced machine.side.values.length)
    (expected : machine.expectation = .operator) :
    ∃ (stack : ValueStack) (operand : Float), machine.side = stack.push operand := by
  have count_eq := balanced.count_eq
  rw [expected] at count_eq
  cases values : machine.side.values with
  | nil =>
      rw [values] at count_eq
      cases count_eq
  | cons operand below => exact ⟨⟨below⟩, operand, congrArg ValueStack.mk values⟩

/-- **A sign waits at once.**  Nothing is applied before it. -/
theorem Balanced.takeOperator_sign {machine : Machine ValueStack} {count : Nat}
    (balanced : machine.Balanced count) (polarity : Sign) (position : Nat) :
    machine.takeOperator (β := Float) (.sign polarity) position
      = { answer := .ok none
          calls := []
          machine := {
            side := machine.side
            waiting := .of (.sign polarity) position :: machine.waiting
            expectation := .operand
            latest := some (.sign polarity) } } := by
  obtain ⟨quiet, kept⟩ :=
    (balanced.withSide ({} : ReversePolish)).callsBefore_sign polarity position
  change machine.callsBefore _ = [] at quiet
  change machine.waiting.dropWhile _ = machine.waiting at kept
  have replayed : replay machine.side (machine.callsBefore (.of (.sign polarity) position))
      = .ok machine.side := by
    rw [quiet]
    rfl
  rw [machine.takeOperator_of_replay_ok replayed, quiet, kept]

namespace WorksAs

variable {machine other : Machine ValueStack}

theorem takeSign (alike : machine.WorksAs other)
    (balanced : machine.Balanced machine.side.values.length)
    (balancedOther : other.Balanced other.side.values.length) (polarity : Sign) (position : Nat) :
    (machine.takeOperator (β := Float) (.sign polarity) position).MatchedBy
      (other.takeOperator (.sign polarity) position) := by
  rw [balanced.takeOperator_sign, balancedOther.takeOperator_sign]
  intro result answered
  exact ⟨answered, alike.side_eq, rfl, alike.waiting.sign polarity position⟩

/-- What has signs applied has both machines do the same. -/
theorem replay_eq (alike : machine.WorksAs other)
    (balanced : machine.Balanced machine.side.values.length)
    (expected : machine.expectation = .operator) {test : Pending → Bool}
    (reaches : ReachesSigns test) :
    replay other.side (callsWhile test other.waiting)
      = replay machine.side (callsWhile test machine.waiting) := by
  obtain ⟨stack, operand, side_eq⟩ := balanced.exists_operand expected
  rw [alike.side_eq, side_eq]
  exact (alike.waiting.replay_eq reaches stack operand).symm

theorem takeBinary (alike : machine.WorksAs other)
    (balanced : machine.Balanced machine.side.values.length)
    (expected : machine.expectation = .operator) (op : BinaryOp) (position : Nat) :
    (machine.takeOperator (β := Float) (.binary op) position).MatchedBy
      (other.takeOperator (.binary op) position) := by
  intro result answered
  have reaches := reachesSigns_goesBefore op position
  have same := alike.replay_eq balanced expected reaches
  cases replayed : replay machine.side (machine.callsBefore (.of (.binary op) position)) with
  | error failure =>
      rw [machine.takeOperator_of_replay_error replayed] at answered
      cases answered
  | ok later =>
      rw [machine.takeOperator_of_replay_ok replayed] at answered ⊢
      rw [other.takeOperator_of_replay_ok (same.trans replayed)]
      exact ⟨answered, rfl, rfl, ((alike.waiting.dropWhile reaches).cons _).sameWork⟩

theorem leaveGroup (alike : machine.WorksAs other)
    (balanced : machine.Balanced machine.side.values.length)
    (expected : machine.expectation = .operator) (position : Nat) :
    (machine.leaveGroup (β := Float) position).MatchedBy (other.leaveGroup position) := by
  intro result answered
  have same := alike.replay_eq balanced expected reachesSigns_inside
  have left := alike.waiting.dropWhile reachesSigns_inside
  cases replayed : replay machine.side machine.callsInside with
  | error failure =>
      rw [machine.leaveGroup_of_replay_error replayed] at answered
      cases answered
  | ok later =>
      cases dropped : machine.waiting.dropWhile (!·.isBoundary) with
      | nil =>
          rw [machine.leaveGroup_of_unmatched replayed dropped] at answered
          cases answered
      | cons boundary below =>
          rw [dropped] at left
          obtain ⟨belowOther, droppedOther, outside⟩ := left.exists_of_cons
          rw [machine.leaveGroup_of_replay_ok replayed dropped] at answered ⊢
          rw [other.leaveGroup_of_replay_ok (same.trans replayed) droppedOther]
          exact ⟨answered, rfl, rfl, outside⟩

theorem conclude (alike : machine.WorksAs other)
    (balanced : machine.Balanced machine.side.values.length)
    (expected : machine.expectation = .operator) (position : Nat) :
    (machine.conclude (β := Float) position).MatchedBy (other.conclude position) := by
  intro result answered
  have same := alike.replay_eq balanced expected reachesSigns_inside
  have left := alike.waiting.dropWhile reachesSigns_inside
  cases replayed : replay machine.side machine.callsInside with
  | error failure =>
      rw [machine.conclude_of_replay_error replayed] at answered
      cases answered
  | ok later =>
      cases dropped : machine.waiting.dropWhile (!·.isBoundary) with
      | nil =>
          rw [dropped] at left
          rw [machine.conclude_of_replay_ok replayed dropped] at answered ⊢
          rw [other.conclude_of_replay_ok (same.trans replayed) left.eq_nil]
          exact ⟨answered, rfl, alike.expectation_eq, (SameInside.same []).sameWork⟩
      | cons boundary below =>
          rw [machine.conclude_of_unclosed replayed dropped] at answered
          cases answered

theorem atEnd (alike : machine.WorksAs other)
    (balanced : machine.Balanced machine.side.values.length) (position : Nat) :
    (machine.atEnd (β := Float) position).MatchedBy (other.atEnd position) := by
  by_cases expected : machine.expectation = .operator
  · rw [atEnd_of_placed expected, atEnd_of_placed (alike.expectation_eq.trans expected)]
    exact alike.conclude balanced expected position
  · rw [atEnd_of_misplaced expected]
    intro result answered
    cases answered

/-- **Machines that differ in signs that wait go on alike.**  If one of them succeeds with a
token, so does the other, and behind the token they differ in no other way. -/
theorem step (alike : machine.WorksAs other)
    (balanced : machine.Balanced machine.side.values.length)
    (balancedOther : other.Balanced other.side.values.length) (token : Token) (position : Nat) :
    (machine.step (β := Float) token position).MatchedBy (other.step token position) := by
  by_cases placed : machine.expectation = token.place
  · rw [step_of_placed placed, step_of_placed (alike.expectation_eq.trans placed)]
    cases token with
    | number value =>
        intro result answered
        refine ⟨answered, ?_, rfl, alike.waiting⟩
        exact congrArg (ValueStack.push · value) alike.side_eq
    | opening =>
        intro result answered
        exact ⟨answered, alike.side_eq, alike.expectation_eq, .group [] position alike.waiting⟩
    | sign polarity => exact alike.takeSign balanced balancedOther polarity position
    | binary op => exact alike.takeBinary balanced placed op position
    | closing => exact alike.leaveGroup balanced placed position
    | endOfInput => exact (alike.conclude balanced placed position).map some
  · intro result answered
    rw [step_of_misplaced machine token position placed] at answered
    cases answered

end WorksAs

theorem Balanced.step_of_accepted {machine : Machine ValueStack}
    (balanced : machine.Balanced machine.side.values.length) {token : Token} {position : Nat}
    (accepted : (machine.step (β := Float) token position).answer = .ok none) :
    (machine.step (β := Float) token position).machine.Balanced
      (machine.step (β := Float) token position).machine.side.values.length := by
  obtain ⟨final, rfl, balancedBehind⟩ :=
    balanced.step_of_quiet ValueStack.counted rfl (.of_accepted accepted)
  exact balancedBehind

end Machine

/-! ## Runs -/

/-- **Machines that differ in signs that wait have the same value in the end**, whatever is
still to come. -/
theorem Machine.WorksAs.runFrom {machine other : Machine ValueStack}
    (alike : machine.WorksAs other) (balanced : machine.Balanced machine.side.values.length)
    (balancedOther : other.Balanced other.side.values.length) (position : Nat)
    (stream : List Item) {value : Float}
    (answered : (runFrom machine position stream).answer = .ok value) :
    (runFrom other position stream).answer = .ok value := by
  induction stream generalizing machine other position with
  | nil =>
      rw [runFrom_nil] at answered ⊢
      exact (alike.atEnd balanced position value answered).1
  | cons item rest ih =>
      obtain error | ⟨token, place⟩ := item
      · cases answered
      · have matched := alike.step balanced balancedOther token place
        cases stepped : (machine.step (β := Float) token place).answer with
        | error failure =>
            rw [runFrom_of_error stepped] at answered
            cases answered
        | ok result =>
            obtain ⟨steppedOther, alikeBehind⟩ := matched result stepped
            cases result with
            | some found =>
                rw [runFrom_of_some stepped] at answered
                rw [runFrom_of_some steppedOther]
                exact answered
            | none =>
                rw [runFrom_of_none stepped] at answered
                rw [runFrom_of_none steppedOther]
                exact ih alikeBehind (balanced.step_of_accepted stepped)
                  (balancedOther.step_of_accepted steppedOther) place answered

/-! ## Signs that cancel -/

namespace Machine

variable {machine : Machine ValueStack}

/-- **Signs are accepted where an operand has to come**, and wait on top of what has waited. -/
theorem Balanced.after_signTokens (balanced : machine.Balanced machine.side.values.length)
    (expected : machine.expectation = .operand) (signs : List (Sign × Nat)) :
    machine.Accepts (β := Float) (signTokens signs) ∧
      (machine.after (β := Float) (signTokens signs)).Balanced
        (machine.after (β := Float) (signTokens signs)).side.values.length ∧
      ∃ latest, machine.after (β := Float) (signTokens signs)
        = { side := machine.side
            waiting := signEntries signs.reverse ++ machine.waiting
            expectation := .operand
            latest := latest } := by
  induction signs generalizing machine with
  | nil =>
      refine ⟨machine.accepts_nil, balanced, machine.latest, ?_⟩
      rw [← expected]
      rfl
  | cons sign rest ih =>
      obtain ⟨polarity, position⟩ := sign
      have placed : machine.expectation = (Token.sign polarity).place := expected
      have stepped : machine.step (β := Float) (.sign polarity) position = _ :=
        (step_of_placed placed position).trans (balanced.takeOperator_sign polarity position)
      have accepted := congrArg Step.answer stepped
      have balancedBehind := balanced.step_of_accepted accepted
      rw [stepped] at balancedBehind
      obtain ⟨accepts, balancedAfter, latest, after_eq⟩ := ih balancedBehind rfl
      rw [signTokens, List.map_cons, ← signTokens, accepts_cons, after, stepped]
      refine ⟨⟨rfl, accepts⟩, balancedAfter, latest, after_eq.trans ?_⟩
      rw [List.reverse_cons, signEntries, signEntries, List.map_append, List.append_assoc]
      rfl

/-- **Signs that cancel leave a machine that works as it did before.** -/
theorem Balanced.worksAs_after_signTokens
    (balanced : machine.Balanced machine.side.values.length)
    (expected : machine.expectation = .operand) {signs : List (Sign × Nat)}
    (cancel : ∀ value, signedBy signs.reverse value = value) :
    (machine.after (β := Float) (signTokens signs)).WorksAs machine := by
  obtain ⟨-, -, latest, after_eq⟩ := balanced.after_signTokens expected signs
  rw [after_eq]
  exact ⟨rfl, expected, @SameWork.signs _ [] cancel machine.waiting⟩

end Machine

/-- **Where an operand has to come, signs that cancel can be left out**: the value is the same,
or there is none. -/
theorem runFrom_signTokens {machine : Machine ValueStack}
    (balanced : machine.Balanced machine.side.values.length)
    (expected : machine.expectation = .operand) {signs : List (Sign × Nat)}
    (cancel : ∀ value, signedBy signs.reverse value = value) {stream : List Item}
    (nonempty : stream ≠ []) (position : Nat) (value : Float) :
    (runFrom machine position (streamOf (signTokens signs) ++ stream)).answer = .ok value ↔
      (runFrom machine position stream).answer = .ok value := by
  obtain ⟨accepts, balancedAfter, -⟩ := balanced.after_signTokens expected signs
  have alike := balanced.worksAs_after_signTokens expected cancel
  rw [runFrom_of_accepts accepts, runFrom_of_ne_nil nonempty _ _ position]
  exact ⟨alike.runFrom balancedAfter balanced position stream,
    alike.symm.runFrom balanced balancedAfter position stream⟩

/-- **Signs that cancel can be left out where the tokens before them await an operand**,
whatever comes behind: the value is the same, or there is none either way. -/
theorem valueRun_signTokens {tokens : List (Token × Nat)}
    (noEnd : ∀ placed ∈ tokens, placed.1 ≠ .endOfInput)
    (awaited : ∀ last ∈ lastToken tokens, last.awaitsOperand = true) {signs : List (Sign × Nat)}
    (cancel : ∀ value, signedBy signs.reverse value = value) {stream : List Item}
    (nonempty : stream ≠ []) (value : Float) :
    (valueRun (streamOf tokens ++ (streamOf (signTokens signs) ++ stream))).answer = .ok value ↔
      (valueRun (streamOf tokens ++ stream)).answer = .ok value := by
  rw [valueRun, valueRun, run, run]
  by_cases accepts : (Machine.start ({} : ValueStack)).Accepts (β := Float) tokens
  · have balanced := Machine.balanced_values_of_quiet
      fun step member => .of_accepted (accepts step member)
    have expected := Machine.expectation_after_of_awaited accepts awaited
    rw [runFrom_of_accepts accepts, runFrom_of_accepts accepts]
    exact runFrom_signTokens balanced expected cancel nonempty _ value
  · obtain ⟨front, token, place, failure, stops⟩ :=
      Machine.exists_stop_of_not_accepts noEnd accepts
    rw [runFrom_of_stopsAt stops, runFrom_of_stopsAt stops]

end InfixArithmetic
