import InfixArithmetic.Proofs.Sketch.Basic

/-!
# Sketches decide the grammar

Taking tokens into a sketch is a way to parse, and it parses exactly the grammar:
`Sketch.parse_eq_some_iff`.

**Soundness.** The left operands in the frames are derived at the rank of their
operators, and an operator stands in an open place that calls for nothing that
binds more tightly (`Frame.WellRanked`).  The operand behind them is a unit.  Every
step keeps this, because completing an operand at a rank yields an expression of
that rank.

**Completeness.** A derivation is read by induction on it, in any open place that
its rank fits.  Reading the tokens of an expression need not complete it: operators
wait for what follows.  What does hold is that completing what was read at a rank
gives what completing the whole expression gives, for every rank that is no tighter
than that of the expression.

Since parsing is a function, the grammar is unambiguous (`Derives.unique`).
-/

namespace InfixArithmetic

set_option autoImplicit false

theorem Derives.loosen {rank looser : Rank} {tokens : List (Token × Nat)}
    {expression : Expression} (derived : Derives rank tokens expression)
    (weaker : looser.strength ≤ rank.strength) : Derives looser tokens expression := by
  cases rank <;> cases looser
  case sum.sum | product.product | unit.unit => exact derived
  case unit.product => exact .ofUnit derived
  case product.sum => exact .ofProduct derived
  case unit.sum => exact .ofProduct (.ofUnit derived)
  all_goals exact absurd weaker (by decide)

theorem Derives.binary {front back : List (Token × Nat)} {left right : Expression}
    (op : BinaryOp) (position : Nat) (derivedLeft : Derives op.rank front left)
    (derivedRight : Derives op.rank.tighter back right) :
    Derives op.rank (front ++ (.binary op, position) :: back)
      (.binary op position left right) := by
  cases op with
  | add | sub => exact .add _ position rfl derivedLeft derivedRight
  | mul | div | rem => exact .multiply _ position rfl derivedLeft derivedRight

namespace Frame

/-! ## Soundness -/

/-- A frame fits into the open place of the frames around it. -/
def Fits (outer : List Frame) : Frame → Prop
  | .operator op _ left =>
      (hole outer).strength ≤ op.rank.strength ∧ Derives op.rank left.tokens left
  | .sign _ _ | .group _ => True

/-- Every frame fits into the frames around it. -/
def WellRanked : List Frame → Prop
  | [] => True
  | frame :: outer => frame.Fits outer ∧ WellRanked outer

/-- Filling a frame with an operand that its place calls for gives an expression that
the place of the frame itself calls for, of a rank that is no looser than one that
reaches the frame. -/
theorem derives_fill {rank found : Rank} {frame : Frame} {outer : List Frame}
    {operand : Expression} (fits : frame.Fits outer)
    (reached : rank.reaches frame.pending = true)
    (derived : Derives found operand.tokens operand)
    (called : (hole (frame :: outer)).strength ≤ found.strength) :
    ∃ later : Rank, Derives later (frame.fill operand).tokens (frame.fill operand) ∧
      rank.strength ≤ later.strength ∧ (hole outer).strength ≤ later.strength := by
  cases frame with
  | sign polarity position =>
      exact ⟨.unit, .signed polarity position (derived.loosen called), rank.le_unit,
        Rank.le_unit _⟩
  | operator op position left =>
      obtain ⟨placed, derivedLeft⟩ := fits
      rw [reaches_operator] at reached
      exact ⟨op.rank, .binary op position derivedLeft (derived.loosen called),
        of_decide_eq_true reached, placed⟩
  | group opening =>
      rw [reaches_group] at reached
      cases reached

/-- A frame that a rank does not reach calls for nothing that binds more tightly. -/
theorem strength_hole_le {rank : Rank} {frame : Frame}
    (beyond : ¬ rank.reaches frame.pending = true) (outer : List Frame) :
    (hole (frame :: outer)).strength ≤ rank.strength := by
  cases frame with
  | sign polarity position => exact absurd (reaches_sign rank polarity position) beyond
  | operator op position left =>
      rw [reaches_operator, decide_eq_true_eq] at beyond
      exact Rank.strength_tighter_le (Nat.lt_of_not_le beyond)
  | group opening => exact rank.sum_le

/-- **Completing an operand at a rank yields an expression of that rank**, and leaves
an open place where it fits. -/
theorem settle_sound {rank found : Rank} {frames : List Frame} {operand : Expression}
    (ranked : WellRanked frames) (derived : Derives found operand.tokens operand)
    (reachable : rank.strength ≤ found.strength)
    (called : (hole frames).strength ≤ found.strength) :
    WellRanked (settle rank frames operand).1 ∧
      (hole (settle rank frames operand).1).strength ≤ rank.strength ∧
      Derives rank (settle rank frames operand).2.tokens (settle rank frames operand).2 := by
  induction frames generalizing found operand with
  | nil => exact ⟨ranked, rank.sum_le, derived.loosen reachable⟩
  | cons frame outer ih =>
      obtain ⟨fits, outerRanked⟩ := ranked
      by_cases reached : rank.reaches frame.pending = true
      · rw [settle_of_reaches reached]
        obtain ⟨later, derivedLater, reachableLater, calledLater⟩ :=
          derives_fill fits reached derived called
        exact ih outerRanked derivedLater reachableLater calledLater
      · rw [settle_of_not_reaches reached]
        exact ⟨⟨fits, outerRanked⟩, strength_hole_le reached outer, derived.loosen reachable⟩

/-! ## Completeness -/

/-- A rank that the open place allows reaches none of the frames around it. -/
theorem settle_of_hole_le {rank : Rank} {frames : List Frame}
    (allowed : (hole frames).strength ≤ rank.strength) (notUnit : rank ≠ .unit)
    (operand : Expression) : settle rank frames operand = (frames, operand) := by
  cases frames with
  | nil => rfl
  | cons frame outer =>
      refine settle_of_not_reaches ?_ outer operand
      cases frame with
      | sign polarity position =>
          cases rank with
          | sum | product => exact absurd allowed (by simp [hole, Rank.strength])
          | unit => exact absurd rfl notUnit
      | operator op position left =>
          have tight := Rank.strength_lt_tighter op.rank_ne_unit
          rw [reaches_operator, decide_eq_true_eq]
          exact Nat.not_le_of_lt (Nat.lt_of_lt_of_le tight allowed)
      | group opening =>
          rw [reaches_group]
          exact Bool.false_ne_true

end Frame

open InfixArithmetic.Frame

namespace Sketch

/-- What is read is ranked, and its operand is a unit. -/
structure Sound (sketch : Sketch) : Prop where
  ranked : WellRanked sketch.frames
  operandDerived : ∀ operand ∈ sketch.operand, Derives .unit operand.tokens operand

theorem Sound.settle {sketch : Sketch} (sound : sketch.Sound) {operand : Expression}
    (found : sketch.operand = some operand) (rank : Rank) :
    WellRanked (Frame.settle rank sketch.frames operand).1 ∧
      (hole (Frame.settle rank sketch.frames operand).1).strength ≤ rank.strength ∧
      Derives rank (Frame.settle rank sketch.frames operand).2.tokens
        (Frame.settle rank sketch.frames operand).2 :=
  settle_sound sound.ranked (sound.operandDerived operand found) rank.le_unit (Rank.le_unit _)

theorem Sound.step {sketch later : Sketch} {token : Token} {position : Nat}
    (sound : sketch.Sound) (stepped : sketch.step token position = some later) :
    later.Sound := by
  obtain ⟨value, rfl, -, rfl⟩ | ⟨polarity, rfl, -, rfl⟩ | ⟨rfl, -, rfl⟩ |
    ⟨op, operand, rfl, found, rfl⟩ | ⟨operand, opening, outer, body, rfl, found, settled, rfl⟩ :=
    step_cases stepped
  · refine ⟨sound.ranked, ?_⟩
    rintro operand ⟨⟩
    exact .number value position
  · exact ⟨⟨trivial, sound.ranked⟩, nofun⟩
  · exact ⟨⟨trivial, sound.ranked⟩, nofun⟩
  · obtain ⟨ranked, placed, derived⟩ := sound.settle found op.rank
    exact ⟨⟨⟨placed, derived⟩, ranked⟩, nofun⟩
  · have inner := sound.settle found .sum
    rw [settled] at inner
    obtain ⟨⟨-, ranked⟩, -, derived⟩ := inner
    refine ⟨ranked, ?_⟩
    rintro operand ⟨⟩
    exact .group opening position derived

theorem Sound.steps {sketch later : Sketch} {tokens : List (Token × Nat)}
    (sound : sketch.Sound) (stepped : sketch.steps tokens = some later) : later.Sound := by
  induction tokens generalizing sketch with
  | nil =>
      cases stepped
      exact sound
  | cons placed rest ih =>
      obtain ⟨token, position⟩ := placed
      obtain ⟨next, first, others⟩ := Option.bind_eq_some_iff.mp stepped
      exact ih (sound.step first) others

theorem Sound.finish {sketch : Sketch} {whole : Expression} (sound : sketch.Sound)
    (finished : sketch.finish = some whole) : Derives .sum whole.tokens whole := by
  obtain ⟨operand, found, settled⟩ := finish_cases finished
  have inner := sound.settle found .sum
  rw [settled] at inner
  exact inner.2.2

theorem sound_empty : ({} : Sketch).Sound :=
  ⟨trivial, nofun⟩

/-- Tokens are read as an expression of a rank.  Reading them in any open place that
the rank fits leaves an operand and frames, and completing these at the rank or a
looser one gives the same as completing the expression itself. -/
def ReadAs (rank : Rank) (tokens : List (Token × Nat)) (expression : Expression) : Prop :=
  ∀ frames : List Frame, (hole frames).strength ≤ rank.strength →
    ∃ later operand, (⟨frames, none⟩ : Sketch).steps tokens = some ⟨later, some operand⟩ ∧
      ∀ looser : Rank, looser.strength ≤ rank.strength →
        Frame.settle looser later operand = Frame.settle looser frames expression

theorem ReadAs.number (value : Float) (position : Nat) :
    ReadAs .unit [(.number value, position)] (.number value position) := by
  intro frames placed
  exact ⟨frames, .number value position, rfl, fun looser weaker => rfl⟩

theorem ReadAs.signed {tokens : List (Token × Nat)} {operand : Expression}
    (read : ReadAs .unit tokens operand) (polarity : Sign) (position : Nat) :
    ReadAs .unit ((.sign polarity, position) :: tokens) (.signed polarity position operand) := by
  intro frames placed
  obtain ⟨later, last, stepped, settled⟩ :=
    read (.sign polarity position :: frames) (Rank.le_unit _)
  refine ⟨later, last, stepped, fun looser weaker => ?_⟩
  rw [settled looser weaker, settle_of_reaches (reaches_sign ..)]
  rfl

/-- The closing parenthesis completes the body, and the group is an operand in the
place where the body was read. -/
theorem ReadAs.group {tokens : List (Token × Nat)} {body : Expression}
    (read : ReadAs .sum tokens body) (opening closing : Nat) :
    ReadAs .unit ((.opening, opening) :: tokens ++ [(.closing, closing)])
      (.group opening body closing) := by
  intro frames placed
  obtain ⟨later, last, stepped, settled⟩ := read (.group opening :: frames) (Rank.sum_le _)
  have inside : Frame.settle .sum later last = (.group opening :: frames, body) := by
    rw [settled .sum (Nat.le_refl _), settle_of_not_reaches]
    rw [reaches_group]
    exact Bool.false_ne_true
  refine ⟨frames, .group opening body closing, ?_, fun looser weaker => rfl⟩
  calc (⟨frames, none⟩ : Sketch).steps ((.opening, opening) :: tokens ++ [(.closing, closing)])
      = ((⟨.group opening :: frames, none⟩ : Sketch).steps tokens).bind
          fun reached => reached.steps [(.closing, closing)] := steps_append ..
    _ = some ⟨frames, some (.group opening body closing)⟩ := by
      simp only [stepped, Option.bind_some, steps, step, inside]

/-- The operator completes its left operand, which fits, and waits for its right one. -/
theorem ReadAs.binary {rank : Rank} {front back : List (Token × Nat)} {left right : Expression}
    {op : BinaryOp} (ranked : op.rank = rank) (readLeft : ReadAs rank front left)
    (readRight : ReadAs rank.tighter back right) (position : Nat) :
    ReadAs rank (front ++ (.binary op, position) :: back) (.binary op position left right) := by
  subst ranked
  intro frames placed
  obtain ⟨middle, last, stepped, settled⟩ := readLeft frames placed
  obtain ⟨later, operand, steppedRight, settledRight⟩ :=
    readRight (.operator op position left :: frames) (Nat.le_refl _)
  have completed : Frame.settle op.rank middle last = (frames, left) := by
    rw [settled op.rank (Nat.le_refl _), settle_of_hole_le placed op.rank_ne_unit]
  refine ⟨later, operand, ?_, fun looser weaker => ?_⟩
  · rw [steps_append, stepped]
    simp only [Option.bind_some, steps, step, completed]
    exact steppedRight
  · rw [settledRight looser (Nat.le_trans weaker op.rank.le_tighter), settle_of_reaches]
    · rfl
    · rw [reaches_operator, decide_eq_true weaker]

theorem ReadAs.loosen {rank looser : Rank} {tokens : List (Token × Nat)}
    {expression : Expression} (read : ReadAs rank tokens expression)
    (weaker : looser.strength ≤ rank.strength) : ReadAs looser tokens expression := by
  intro frames placed
  obtain ⟨later, operand, stepped, settled⟩ := read frames (Nat.le_trans placed weaker)
  exact ⟨later, operand, stepped,
    fun least weakest => settled least (Nat.le_trans weakest weaker)⟩

/-- **Derived tokens are read as the expression they are derived for.** -/
theorem readAs_of_derives {rank : Rank} {tokens : List (Token × Nat)} {expression : Expression}
    (derived : Derives rank tokens expression) : ReadAs rank tokens expression := by
  induction derived with
  | number value position => exact .number value position
  | signed polarity position _ ih => exact ih.signed polarity position
  | group opening closing _ ih => exact ih.group opening closing
  | ofUnit _ ih => exact ih.loosen (by decide)
  | multiply op position ranked _ _ ihLeft ihRight => exact .binary ranked ihLeft ihRight position
  | ofProduct _ ih => exact ih.loosen (by decide)
  | add op position ranked _ _ ihLeft ihRight => exact .binary ranked ihLeft ihRight position

/-! ## Parsing -/

/-- **Parsing decides the grammar.** -/
theorem parse_eq_some_iff {tokens : List (Token × Nat)} {expression : Expression} :
    parse tokens = some expression ↔ Derives .sum tokens expression := by
  constructor
  · intro parsed
    obtain ⟨sketch, stepped, finished⟩ := Option.bind_eq_some_iff.mp parsed
    have derived := (sound_empty.steps stepped).finish finished
    rw [tokens_finish finished, tokens_steps stepped] at derived
    exact derived
  · intro derived
    obtain ⟨frames, operand, stepped, settled⟩ := readAs_of_derives derived [] (Nat.le_refl _)
    have completed := settled .sum (Nat.le_refl _)
    rw [settle_nil] at completed
    rw [parse, stepped, Option.bind_some, finish, Option.map_some, completed]

end Sketch

/-- **The grammar of tokens is unambiguous.** -/
theorem Derives.unique {tokens : List (Token × Nat)} {first second : Expression}
    (derivedFirst : Derives .sum tokens first) (derivedSecond : Derives .sum tokens second) :
    first = second := by
  have parsed := Sketch.parse_eq_some_iff.mpr derivedFirst
  rw [Sketch.parse_eq_some_iff.mpr derivedSecond] at parsed
  exact (Option.some.inj parsed).symm

end InfixArithmetic
