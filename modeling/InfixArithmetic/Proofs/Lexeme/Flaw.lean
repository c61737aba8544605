import InfixArithmetic.Proofs.Lexeme.Split

/-!
# The first flaw of a text

What keeps a text from being read can be said without reading it.  It is a character
that is neither a blank nor a symbol nor part of a number, or a run of digits and
points, as long as can be on both sides, that is no literal or has no finite value.
`Flaw` says so for a place in a text, given what stands before and behind the place.

A reading goes from left to right and never looks back, so the flaw that it stops at
is the first one, `FirstFlaw`.  The proofs carry along that no flaw stands before the
place that has been reached (`SoundUpTo`).  A blank, a symbol and a literal move the
place on: a run inside a literal would have to go on to the left, so it is no flaw of
its own.  At the end of a text that splits no place is left (`Splits.not_flaw`), and
where a faulty text stops there is a flaw (`Faulty.firstFlaw`).
-/

namespace InfixArithmetic

set_option autoImplicit false

/-! ## Runs without a value -/

namespace Literal

/-- The digits of a run are what is left without its first point. -/
theorem whole_append_fraction (run : List Char) :
    whole run ++ fraction run = run.erase '.' := by
  induction run with
  | nil => rfl
  | cons character rest ih =>
      by_cases isPoint : character = '.'
      · subst isPoint
        rfl
      · have isOther : (decide ¬character = '.') = true := decide_eq_true isPoint
        rw [List.erase_cons_tail (by simpa using isPoint), ← ih]
        simp only [whole, fraction, ne_eq, List.takeWhile_cons, List.dropWhile_cons, isOther,
          if_true, List.cons_append]

theorem isDigit_of_ne {character : Char} (numeral : isNumeral character = true)
    (isOther : character ≠ '.') : character.isDigit = true := by
  simpa [isNumeral, isOther] using numeral

/-- A run of digits and points is a literal when it has a digit and at most one point. -/
theorem isWellFormed_iff {run : List Char}
    (numerals : ∀ character ∈ run, isNumeral character = true) :
    isWellFormed run = true ↔ (∃ digit ∈ run, digit.isDigit = true) ∧ run.count '.' ≤ 1 := by
  have onePoint : '.' ∉ run.erase '.' ↔ run.count '.' ≤ 1 := by
    rw [← List.count_eq_zero, List.count_erase_self]
    omega
  rw [isWellFormed, whole_append_fraction, ← onePoint]
  simp only [Bool.and_eq_true, Bool.not_eq_true', List.isEmpty_eq_false_iff, List.all_eq_true]
  constructor
  · rintro ⟨nonempty, digits⟩
    obtain ⟨digit, member⟩ := List.exists_mem_of_ne_nil _ nonempty
    refine ⟨⟨digit, List.mem_of_mem_erase member, digits digit member⟩, fun point => ?_⟩
    exact absurd (digits '.' point) (by decide)
  · rintro ⟨⟨digit, member, isDigit⟩, noPoint⟩
    have isOther : digit ≠ '.' := by
      rintro rfl
      exact absurd isDigit (by decide)
    refine ⟨List.ne_nil_of_mem ((List.mem_erase_of_ne isOther).mpr member), fun other left => ?_⟩
    refine isDigit_of_ne (numerals other (List.mem_of_mem_erase left)) ?_
    rintro rfl
    exact noPoint left

/-- Whether a run has no digit or more than one point. -/
def IsMalformed (run : List Char) : Prop :=
  (∀ character ∈ run, character.isDigit = false) ∨ 1 < run.count '.'

theorem isMalformed_iff {run : List Char}
    (numerals : ∀ character ∈ run, isNumeral character = true) :
    IsMalformed run ↔ isWellFormed run = false := by
  rw [← Bool.not_eq_true, isWellFormed_iff numerals, IsMalformed, not_and_or, Nat.not_le]
  simp only [not_exists, not_and, Bool.not_eq_true]

/-- **Why a run of digits and points has no value.** -/
theorem read_eq_error_iff {run : List Char}
    (numerals : ∀ character ∈ run, isNumeral character = true) (fault : Fault) :
    read run = .error fault ↔
      (fault = .malformed ∧ IsMalformed run) ∨
        (fault = .tooLarge ∧ ¬ IsMalformed run ∧ (nearest run).isFinite = false) := by
  rw [isMalformed_iff numerals]
  simp only [read]
  split
  · rename_i wellFormed
    split
    · rename_i isFinite
      simp [wellFormed, isFinite]
    · rename_i isInfinite
      cases fault <;> simp [wellFormed, isInfinite]
  · rename_i illFormed
    cases fault <;> simp [illFormed]

end Literal

/-! ## Flaws -/

/-- Whether the text before a run of digits and points does not end in one more. -/
def StartsRun (before : List Char) : Prop :=
  ∀ character ∈ before.getLast?, Literal.isNumeral character = false

theorem startsRun_nil : StartsRun [] :=
  fun _ isLast => absurd isLast (Option.not_mem_none _)

theorem startsRun_concat {before : List Char} {character : Char} :
    StartsRun (before ++ [character]) ↔ Literal.isNumeral character = false := by
  simp [StartsRun]

theorem endsRun_cons {character : Char} {rest : List Char} :
    EndsRun (character :: rest) ↔ Literal.isNumeral character = false := by
  simp [EndsRun]

theorem startsRun_of_numerals {before run behind : List Char} (nonempty : run ≠ [])
    (numerals : ∀ character ∈ run, Literal.isNumeral character = true)
    (parted : StartsRun before ∨ EndsRun (run ++ behind)) : StartsRun before := by
  obtain starts | ends := parted
  · exact starts
  · obtain ⟨first, run, rfl⟩ := List.exists_cons_of_ne_nil nonempty
    have isNumeral := numerals first List.mem_cons_self
    rw [endsRun_cons.mp ends] at isNumeral
    cases isNumeral

/-- A run of digits and points between two texts, as long as can be. -/
structure MaximalRun (before run behind : List Char) : Prop where
  nonempty : run ≠ []
  numerals : ∀ character ∈ run, Literal.isNumeral character = true
  starts : StartsRun before
  ends : EndsRun behind

/-- What cannot be read between the text before it and the text behind that starts with it,
and the error for it. -/
inductive Flaw (before : List Char) : List Char → ScanError → Prop where
  | character {rest : List Char} (character : Char)
      (notBlank : Text.isBlank character = false)
      (notNumeral : Literal.isNumeral character = false)
      (notSymbol : Lexeme.ofSymbol? character = none) :
    Flaw before (character :: rest) (.unexpectedCharacter character (Text.byteLength before))
  | malformed {run rest : List Char} (maximal : MaximalRun before run rest)
      (isMalformed : Literal.IsMalformed run) :
    Flaw before (run ++ rest) (.malformedNumber (String.ofList run) (Text.byteLength before))
  | tooLarge {run rest : List Char} (maximal : MaximalRun before run rest)
      (isLiteral : ¬ Literal.IsMalformed run)
      (isInfinite : (Literal.nearest run).isFinite = false) :
    Flaw before (run ++ rest) (.literalTooLarge (Text.byteLength before))

namespace Flaw

variable {before behind rest run : List Char} {error other : ScanError} {character : Char}

theorem of_read {fault : Literal.Fault} (maximal : MaximalRun before run rest)
    (isFaulty : Literal.read run = .error fault) :
    Flaw before (run ++ rest) (Scan.numeralError run (Text.byteLength before) fault) := by
  obtain ⟨rfl, isMalformed⟩ | ⟨rfl, isLiteral, isInfinite⟩ :=
    (Literal.read_eq_error_iff maximal.numerals fault).mp isFaulty
  · exact .malformed maximal isMalformed
  · exact .tooLarge maximal isLiteral isInfinite

/-- A flaw is a character of no kind or a run that is read as an error. -/
theorem cases_read (flaw : Flaw before behind error) :
    (∃ character rest, behind = character :: rest ∧ Text.isBlank character = false ∧
        Literal.isNumeral character = false ∧ Lexeme.ofSymbol? character = none ∧
          error = .unexpectedCharacter character (Text.byteLength before)) ∨
      ∃ run rest fault, behind = run ++ rest ∧ MaximalRun before run rest ∧
        Literal.read run = .error fault ∧
          error = Scan.numeralError run (Text.byteLength before) fault := by
  cases flaw with
  | character character notBlank notNumeral notSymbol =>
      exact .inl ⟨character, _, rfl, notBlank, notNumeral, notSymbol, rfl⟩
  | malformed maximal isMalformed =>
      exact .inr ⟨_, _, .malformed, rfl, maximal,
        (Literal.read_eq_error_iff maximal.numerals _).mpr (.inl ⟨rfl, isMalformed⟩), rfl⟩
  | tooLarge maximal isLiteral isInfinite =>
      exact .inr ⟨_, _, .tooLarge, rfl, maximal,
        (Literal.read_eq_error_iff maximal.numerals _).mpr (.inr ⟨rfl, isLiteral, isInfinite⟩), rfl⟩

/-- A flaw that starts with a digit or a point is the run that starts there. -/
theorem exists_run (flaw : Flaw before (run ++ rest) error) (nonempty : run ≠ [])
    (numerals : ∀ character ∈ run, Literal.isNumeral character = true) (ends : EndsRun rest) :
    StartsRun before ∧ ∃ fault, Literal.read run = .error fault ∧
      error = Scan.numeralError run (Text.byteLength before) fault := by
  obtain ⟨character, others, same, -, notNumeral, -, -⟩ |
    ⟨found, others, fault, same, maximal, isFaulty, rfl⟩ := flaw.cases_read
  · obtain ⟨first, run, rfl⟩ := List.exists_cons_of_ne_nil nonempty
    cases same
    rw [numerals character List.mem_cons_self] at notNumeral
    cases notNumeral
  · have sameRun := congrArg (List.takeWhile Literal.isNumeral) same
    rw [takeWhile_run numerals ends, takeWhile_run maximal.numerals maximal.ends] at sameRun
    subst sameRun
    exact ⟨maximal.starts, fault, isFaulty, rfl⟩

/-- A flaw that starts with neither a digit nor a point is a character of no kind. -/
theorem unknown_of_notNumeral (flaw : Flaw before (character :: rest) error)
    (notNumeral : Literal.isNumeral character = false) :
    Text.isBlank character = false ∧ Lexeme.ofSymbol? character = none ∧
      error = .unexpectedCharacter character (Text.byteLength before) := by
  obtain ⟨found, others, same, notBlank, -, notSymbol, rfl⟩ |
    ⟨run, others, fault, same, maximal, -, -⟩ := flaw.cases_read
  · cases same
    exact ⟨notBlank, notSymbol, rfl⟩
  · obtain ⟨first, run, rfl⟩ := List.exists_cons_of_ne_nil maximal.nonempty
    cases same
    rw [maximal.numerals character List.mem_cons_self] at notNumeral
    cases notNumeral

/-- A run of digits and points is no flaw where digits or points stand before it. -/
theorem startsRun_of_numeral (flaw : Flaw before (character :: rest) error)
    (isNumeral : Literal.isNumeral character = true) : StartsRun before := by
  obtain ⟨found, others, same, -, notNumeral, -, -⟩ | ⟨run, others, fault, same, maximal, -, -⟩ :=
    flaw.cases_read
  · cases same
    rw [isNumeral] at notNumeral
    cases notNumeral
  · exact maximal.starts

/-- **At one place there is one error.** -/
theorem unique (flaw : Flaw before behind error) (flawOther : Flaw before behind other) :
    error = other := by
  obtain ⟨character, rest, rfl, -, notNumeral, -, rfl⟩ |
    ⟨run, rest, fault, rfl, maximal, isFaulty, rfl⟩ := flaw.cases_read
  · exact (flawOther.unknown_of_notNumeral notNumeral).2.2.symm
  · obtain ⟨-, found, isFound, rfl⟩ :=
      flawOther.exists_run maximal.nonempty maximal.numerals maximal.ends
    rw [isFaulty] at isFound
    cases isFound
    rfl

theorem behind_ne_nil (flaw : Flaw before behind error) : behind ≠ [] := by
  cases flaw with
  | character => exact List.cons_ne_nil _ _
  | malformed maximal => exact List.append_ne_nil_of_left_ne_nil maximal.nonempty _
  | tooLarge maximal => exact List.append_ne_nil_of_left_ne_nil maximal.nonempty _

end Flaw

/-- The error for the first flaw of a text. -/
def FirstFlaw (text : List Char) (error : ScanError) : Prop :=
  ∃ before behind, text = before ++ behind ∧ Flaw before behind error ∧
    ∀ other others later, text = other ++ others → Flaw other others later → before <+: other

theorem FirstFlaw.unique {text : List Char} {error other : ScanError}
    (first : FirstFlaw text error) (firstOther : FirstFlaw text other) : error = other := by
  obtain ⟨before, behind, split, flaw, least⟩ := first
  obtain ⟨before', behind', split', flaw', least'⟩ := firstOther
  obtain rfl : before = before' :=
    List.IsPrefix.eq_of_length_le (least _ _ _ split' flaw') (least' _ _ _ split flaw).length_le
  obtain rfl : behind = behind' := List.append_cancel_left (split.symm.trans split')
  exact flaw.unique flaw'

/-! ## Nothing wrong so far -/

/-- Whether no flaw of a text stands before a place in it. -/
def SoundUpTo (done ahead : List Char) : Prop :=
  ∀ before behind error, done ++ ahead = before ++ behind → Flaw before behind error →
    done <+: before

namespace SoundUpTo

variable {done rest piece run : List Char} {character : Char}

theorem start (text : List Char) : SoundUpTo [] text :=
  fun before _ _ _ _ => List.nil_prefix (l := before)

/-- What holds no flaw moves the place on. -/
theorem behind (sound : SoundUpTo done (piece ++ rest))
    (flawless : ∀ front first back error, piece = front ++ first :: back →
      ¬ Flaw (done ++ front) (first :: back ++ rest) error) :
    SoundUpTo (done ++ piece) rest := by
  intro before behind error split flaw
  rw [List.append_assoc] at split
  obtain ⟨offset, rfl⟩ := sound before behind error split flaw
  rw [List.append_assoc, List.append_cancel_left_eq, List.append_eq_append_iff] at split
  obtain ⟨later, rfl, -⟩ | ⟨back, rfl, rfl⟩ := split
  · rw [← List.append_assoc]
    exact List.prefix_append _ _
  · cases back with
    | nil => simp
    | cons first back => exact absurd flaw (flawless offset first back error rfl)

theorem behind_character (sound : SoundUpTo done (character :: rest))
    (notNumeral : Literal.isNumeral character = false)
    (known : Text.isBlank character = true ∨ Lexeme.ofSymbol? character ≠ none) :
    SoundUpTo (done ++ [character]) rest := by
  have sound : SoundUpTo done ([character] ++ rest) := sound
  refine sound.behind fun front first back error split flaw => ?_
  obtain ⟨rfl, same⟩ := List.append_eq_singleton_iff.mp split.symm |>.resolve_right
    (fun impossible => List.cons_ne_nil _ _ impossible.2)
  cases same
  obtain ⟨notBlank, notSymbol, -⟩ := flaw.unknown_of_notNumeral notNumeral
  obtain isBlank | isSymbol := known
  · rw [isBlank] at notBlank
    cases notBlank
  · exact isSymbol notSymbol

theorem behind_literal {value : Float} (sound : SoundUpTo done (run ++ rest))
    (nonempty : run ≠ []) (numerals : ∀ character ∈ run, Literal.isNumeral character = true)
    (maximal : EndsRun rest) (isLiteral : Literal.read run = .ok value) :
    SoundUpTo (done ++ run) rest := by
  refine sound.behind fun front first back error split flaw => ?_
  obtain rfl | ⟨earlier, last, rfl⟩ := List.eq_nil_or_concat front
  · rw [List.append_nil, ← List.nil_append (first :: back), ← split] at flaw
    obtain ⟨-, fault, isFaulty, -⟩ := flaw.exists_run nonempty numerals maximal
    rw [isLiteral] at isFaulty
    cases isFaulty
  · rw [List.concat_eq_append] at split flaw
    have isNumeral : Literal.isNumeral first = true := numerals first (by simp [split])
    have starts := flaw.startsRun_of_numeral isNumeral
    rw [← List.append_assoc, startsRun_concat, numerals last (by simp [split])] at starts
    cases starts

end SoundUpTo

/-! ## What a reading finds -/

/-- A text that splits has no flaw up to its end. -/
theorem Splits.soundUpTo {text : List Char} {position final : Nat}
    {lexemes : List (Lexeme × Nat)} (splits : Splits text position lexemes final)
    {done : List Char} (sound : SoundUpTo done text) : SoundUpTo (done ++ text) [] := by
  induction splits generalizing done with
  | ended position => rwa [List.append_nil]
  | blank character isBlank behind ih =>
      rw [List.append_cons]
      exact ih (sound.behind_character (isNumeral_of_isBlank isBlank) (.inl isBlank))
  | symbol character lexeme isSymbol behind ih =>
      rw [List.append_cons]
      exact ih (sound.behind_character (kind_of_symbol isSymbol).2 (.inr (by simp [isSymbol])))
  | number run value nonempty numerals maximal isLiteral behind ih =>
      rw [← List.append_assoc]
      exact ih (sound.behind_literal nonempty numerals maximal isLiteral)

/-- **A text that splits has no flaw.** -/
theorem Splits.not_flaw {before behind : List Char} {position final : Nat}
    {lexemes : List (Lexeme × Nat)} {error : ScanError}
    (splits : Splits (before ++ behind) position lexemes final) : ¬ Flaw before behind error := by
  intro flaw
  have sound := splits.soundUpTo (SoundUpTo.start _)
  have whole := sound before behind error (List.append_nil _) flaw
  have longer := whole.length_le
  rw [List.nil_append, List.length_append] at longer
  exact flaw.behind_ne_nil (List.eq_nil_of_length_eq_zero (by omega))

/-- The error of a faulty text is that of its first flaw. -/
theorem Faulty.firstFlaw_of_soundUpTo {text : List Char} {position : Nat}
    {lexemes : List (Lexeme × Nat)} {error : ScanError}
    (faulty : Faulty text position lexemes error) {done : List Char}
    (sound : SoundUpTo done text) (placed : position = Text.byteLength done)
    (starts : StartsRun done ∨ EndsRun text) : FirstFlaw (done ++ text) error := by
  induction faulty generalizing done with
  | character character notBlank notNumeral notSymbol =>
      subst placed
      exact ⟨done, _, rfl, .character character notBlank notNumeral notSymbol, sound⟩
  | run run fault nonempty numerals maximal isFaulty =>
      subst placed
      have begins := startsRun_of_numerals nonempty numerals starts
      exact ⟨done, _, rfl, .of_read ⟨nonempty, numerals, begins, maximal⟩ isFaulty, sound⟩
  | blank character isBlank behind ih =>
      have notNumeral := isNumeral_of_isBlank isBlank
      rw [List.append_cons]
      refine ih (sound.behind_character notNumeral (.inl isBlank)) ?_
        (.inl (startsRun_concat.mpr notNumeral))
      rw [Text.byteLength_append, placed]
      rfl
  | symbol character lexeme isSymbol behind ih =>
      have notNumeral := (kind_of_symbol isSymbol).2
      rw [List.append_cons]
      refine ih (sound.behind_character notNumeral (.inr (by simp [isSymbol]))) ?_
        (.inl (startsRun_concat.mpr notNumeral))
      rw [Text.byteLength_append, placed]
      rfl
  | number run value nonempty numerals maximal isLiteral behind ih =>
      rw [← List.append_assoc]
      refine ih (sound.behind_literal nonempty numerals maximal isLiteral) ?_ (.inr maximal)
      rw [Text.byteLength_append, placed]

/-- **A faulty text stops at its first flaw.** -/
theorem Faulty.firstFlaw {text : List Char} {lexemes : List (Lexeme × Nat)} {error : ScanError}
    (faulty : Faulty text 0 lexemes error) : FirstFlaw text error :=
  faulty.firstFlaw_of_soundUpTo (SoundUpTo.start text) rfl (.inl startsRun_nil)

end InfixArithmetic
