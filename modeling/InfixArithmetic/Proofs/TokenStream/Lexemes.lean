import InfixArithmetic.Proofs.Lexeme.UpTo
import InfixArithmetic.Proofs.Machine.Run

/-!
# The tokens of lexemes

A stream looks at its scan one link at a time and remembers one token.  Over a
chain of lexemes it draws what a recursion over the lexemes lists, with the token
before them as its only other argument: `emissionsAfter`, and without telling
implied stars from written ones `tokensAfter`.  Behind the lexemes it draws the end
or the error that the scan ends with (`TokenStream.emissions_chain`).

The token that lexemes leave behind is `latestAfter`, and lists of lexemes are read
one behind the other (`tokensAfter_append`).
-/

namespace InfixArithmetic

set_option autoImplicit false

/-! ## Lexemes behind a token -/

/-- Whether an operand has to come behind a token, or at the start. -/
def awaitsAfter (latest : Option Token) : Bool :=
  ({ ahead := none, latest := latest } : TokenStream).awaitsOperand

theorem awaitsAfter_iff {latest : Option Token} :
    awaitsAfter latest = true ↔ ∀ last ∈ latest, last.awaitsOperand = true := by
  cases latest with
  | none => exact ⟨fun _ => nofun, fun _ => rfl⟩
  | some last => simp [awaitsAfter, TokenStream.awaitsOperand]

/-- The token that a lexeme is behind another token, or at the start. -/
def Lexeme.tokenAfter (latest : Option Token) (lexeme : Lexeme) : Token :=
  ({ ahead := none, latest := latest } : TokenStream).tokenOf lexeme

/-- What is drawn for lexemes behind a token. -/
def emissionsAfter : Option Token → List (Lexeme × Nat) → List Emission
  | _, [] => []
  | latest, (lexeme, position) :: rest =>
      let token := lexeme.tokenAfter latest
      if TokenStream.impliesStar latest token then
        .implied token position :: .written token position :: emissionsAfter (some token) rest
      else
        .written token position :: emissionsAfter (some token) rest

/-- The placed tokens of lexemes behind a token, implied stars included. -/
def tokensAfter : Option Token → List (Lexeme × Nat) → List (Token × Nat)
  | _, [] => []
  | latest, (lexeme, position) :: rest =>
      let token := lexeme.tokenAfter latest
      if TokenStream.impliesStar latest token then
        (.binary .mul, position) :: (token, position) :: tokensAfter (some token) rest
      else
        (token, position) :: tokensAfter (some token) rest

/-- The token that lexemes leave behind. -/
def latestAfter : Option Token → List (Lexeme × Nat) → Option Token
  | latest, [] => latest
  | latest, (lexeme, _) :: rest => latestAfter (some (lexeme.tokenAfter latest)) rest

theorem tokensAfter_of_implied {latest : Option Token} {lexeme : Lexeme}
    (implied : TokenStream.impliesStar latest (lexeme.tokenAfter latest) = true) (position : Nat)
    (rest : List (Lexeme × Nat)) :
    tokensAfter latest ((lexeme, position) :: rest)
      = (.binary .mul, position) :: (lexeme.tokenAfter latest, position)
        :: tokensAfter (some (lexeme.tokenAfter latest)) rest :=
  if_pos implied

theorem tokensAfter_of_written {latest : Option Token} {lexeme : Lexeme}
    (written : ¬ TokenStream.impliesStar latest (lexeme.tokenAfter latest) = true)
    (position : Nat) (rest : List (Lexeme × Nat)) :
    tokensAfter latest ((lexeme, position) :: rest)
      = (lexeme.tokenAfter latest, position)
        :: tokensAfter (some (lexeme.tokenAfter latest)) rest :=
  if_neg written

theorem tokensAfter_append (latest : Option Token) (front back : List (Lexeme × Nat)) :
    tokensAfter latest (front ++ back)
      = tokensAfter latest front ++ tokensAfter (latestAfter latest front) back := by
  induction front generalizing latest with
  | nil => rfl
  | cons placed rest ih =>
      obtain ⟨lexeme, position⟩ := placed
      rw [List.cons_append]
      by_cases implied : TokenStream.impliesStar latest (lexeme.tokenAfter latest) = true
      · rw [tokensAfter_of_implied implied, tokensAfter_of_implied implied, ih]
        rfl
      · rw [tokensAfter_of_written implied, tokensAfter_of_written implied, ih]
        rfl

theorem latestAfter_append (latest : Option Token) (front back : List (Lexeme × Nat)) :
    latestAfter latest (front ++ back) = latestAfter (latestAfter latest front) back := by
  induction front generalizing latest with
  | nil => rfl
  | cons placed rest ih => exact ih _

theorem ne_endOfInput_of_mem_tokensAfter {latest : Option Token} {lexemes : List (Lexeme × Nat)} :
    ∀ placed ∈ tokensAfter latest lexemes, placed.1 ≠ .endOfInput := by
  induction lexemes generalizing latest with
  | nil => exact nofun
  | cons placed rest ih =>
      obtain ⟨lexeme, position⟩ := placed
      have notEnd : lexeme.tokenAfter latest ≠ .endOfInput := by
        cases lexeme with
        | number | star | slash | percent | opening | closing => exact nofun
        | plus | minus =>
            rw [Lexeme.tokenAfter, TokenStream.tokenOf]
            split <;> exact nofun
      by_cases implied : TokenStream.impliesStar latest (lexeme.tokenAfter latest) = true
      · rw [tokensAfter_of_implied implied, List.forall_mem_cons, List.forall_mem_cons]
        exact ⟨nofun, notEnd, ih⟩
      · rw [tokensAfter_of_written implied, List.forall_mem_cons]
        exact ⟨notEnd, ih⟩

/-- The items of lexemes are their tokens, with nothing wrong among them. -/
theorem item_emissionsAfter (latest : Option Token) (lexemes : List (Lexeme × Nat)) :
    (emissionsAfter latest lexemes).map Emission.item = (tokensAfter latest lexemes).map .ok := by
  induction lexemes generalizing latest with
  | nil => rfl
  | cons placed rest ih =>
      obtain ⟨lexeme, position⟩ := placed
      by_cases implied : TokenStream.impliesStar latest (lexeme.tokenAfter latest) = true
      · rw [tokensAfter_of_implied implied, emissionsAfter, if_pos implied]
        simp only [List.map_cons, ih]
        rfl
      · rw [tokensAfter_of_written implied, emissionsAfter, if_neg implied]
        simp only [List.map_cons, ih]
        rfl

/-! ## Streams of lexemes -/

namespace TokenStream

theorem emissions_of_next_none {stream : TokenStream} (ended : stream.next = none) :
    stream.emissions = [] := by
  rw [emissions]
  split
  · rfl
  · rename_i drawn
    rw [ended] at drawn
    cases drawn

theorem emissions_of_next_some {stream later : TokenStream} {emission : Emission}
    (drawn : stream.next = some (emission, later)) :
    stream.emissions = emission :: later.emissions := by
  rw [emissions]
  split
  · rename_i ended
    rw [drawn] at ended
    cases ended
  · rename_i other _ drawnOther
    rw [drawn] at drawnOther
    cases drawnOther
    rfl

/-- The stream of a scan behind a token, with nothing held back. -/
def ofScan (scan : Scan) (latest : Option Token) : TokenStream where
  ahead := some scan
  latest := latest

theorem emissions_ended (position : Nat) (latest : Option Token) :
    (ofScan (.ended position) latest).emissions = [.written .endOfInput position] := by
  rw [emissions_of_next_some rfl, emissions_of_next_none rfl]

theorem emissions_refused (error : ScanError) (latest : Option Token) :
    (ofScan (.refused error) latest).emissions = [.refused error] := by
  rw [emissions_of_next_some rfl, emissions_of_next_none rfl]

theorem next_read (lexeme : Lexeme) (position : Nat) (scan : Scan) (latest : Option Token) :
    (ofScan (.read lexeme position scan) latest).next
      = if impliesStar latest (lexeme.tokenAfter latest) then
          some (.implied (lexeme.tokenAfter latest) position,
            { ahead := some scan
              held := some (lexeme.tokenAfter latest, position)
              latest := some (.binary .mul) })
        else
          some (.written (lexeme.tokenAfter latest) position,
            ofScan scan (some (lexeme.tokenAfter latest))) := by
  cases lexeme <;> rfl

/-- A lexeme is drawn as its token, with a star before it if one is understood. -/
theorem emissions_read (lexeme : Lexeme) (position : Nat) (scan : Scan) (latest : Option Token) :
    (ofScan (.read lexeme position scan) latest).emissions
      = emissionsAfter latest [(lexeme, position)]
        ++ (ofScan scan (some (lexeme.tokenAfter latest))).emissions := by
  have drawn := next_read lexeme position scan latest
  by_cases implied : impliesStar latest (lexeme.tokenAfter latest) = true
  · rw [if_pos implied] at drawn
    rw [emissionsAfter, if_pos implied, emissions_of_next_some drawn, emissions_of_next_some rfl]
    rfl
  · rw [if_neg implied] at drawn
    rw [emissionsAfter, if_neg implied, emissions_of_next_some drawn]
    rfl

/-- **What is drawn for a chain of lexemes**, and then for the scan behind them. -/
theorem emissions_chain (lexemes : List (Lexeme × Nat)) (scan : Scan) (latest : Option Token) :
    (ofScan (Scan.chain lexemes scan) latest).emissions
      = emissionsAfter latest lexemes ++ (ofScan scan (latestAfter latest lexemes)).emissions := by
  induction lexemes generalizing latest with
  | nil => rfl
  | cons placed rest ih =>
      obtain ⟨lexeme, position⟩ := placed
      rw [Scan.chain, emissions_read, ih, ← List.append_assoc]
      congr 1
      by_cases implied : impliesStar latest (lexeme.tokenAfter latest) = true
      · simp only [emissionsAfter, if_pos implied]
        rfl
      · simp only [emissionsAfter, if_neg implied]
        rfl

end TokenStream

/-! ## The items of a source -/

/-- The items of a scan behind a token, or at the start. -/
def itemsAfter (latest : Option Token) (scan : Scan) : List Item :=
  (TokenStream.ofScan scan latest).emissions.map Emission.item

/-- The items of a chain are the tokens of its lexemes and then the items of what it leads
to. -/
theorem itemsAfter_chain (latest : Option Token) (lexemes : List (Lexeme × Nat)) (scan : Scan) :
    itemsAfter latest (Scan.chain lexemes scan)
      = streamOf (tokensAfter latest lexemes) ++ itemsAfter (latestAfter latest lexemes) scan := by
  rw [itemsAfter, TokenStream.emissions_chain, List.map_append, item_emissionsAfter]
  rfl

/-- The items of a lexeme and of what is read behind it. -/
theorem itemsAfter_read (latest : Option Token) (lexeme : Lexeme) (position : Nat) (rest : Scan) :
    itemsAfter latest (.read lexeme position rest)
      = streamOf (tokensAfter latest [(lexeme, position)])
        ++ itemsAfter (some (lexeme.tokenAfter latest)) rest :=
  itemsAfter_chain latest [(lexeme, position)] rest

theorem itemsAfter_ended (latest : Option Token) (final : Nat) :
    itemsAfter latest (.ended final) = [.ok (.endOfInput, final)] := by
  rw [itemsAfter, TokenStream.emissions_ended]
  rfl

theorem itemsAfter_refused (latest : Option Token) (error : ScanError) :
    itemsAfter latest (.refused error) = [.error error] := by
  rw [itemsAfter, TokenStream.emissions_refused]
  rfl

theorem itemsAfter_ne_nil (latest : Option Token) (scan : Scan) : itemsAfter latest scan ≠ [] := by
  obtain ⟨lexemes, ⟨final, rfl⟩ | ⟨error, rfl⟩⟩ := scan.exists_chain
  · rw [itemsAfter_chain, itemsAfter_ended]
    exact List.append_ne_nil_of_right_ne_nil _ nofun
  · rw [itemsAfter_chain, itemsAfter_refused]
    exact List.append_ne_nil_of_right_ne_nil _ nofun

/-- **The items of a source that splits up to a place** are the tokens of the lexemes before
the place and then the items of what is read from there on. -/
theorem items_of_upTo {source : String} {rest : List Char} {place : Nat}
    {lexemes : List (Lexeme × Nat)} (upTo : SplitsUpTo rest place source.toList 0 lexemes) :
    items source = streamOf (tokensAfter none lexemes)
      ++ itemsAfter (latestAfter none lexemes) (Scan.ofChars rest place) := by
  rw [← itemsAfter_chain, ← upTo.scan_eq]
  rfl

/-- **With more text behind it, a source that splits has the tokens of its lexemes first**, if
no run of digits and points goes on from the one to the other. -/
theorem Splits.items_append {source more : String} {lexemes : List (Lexeme × Nat)} {final : Nat}
    (splits : Splits source.toList 0 lexemes final)
    (parted : StartsRun source.toList ∨ EndsRun more.toList) :
    items (source ++ more) = streamOf (tokensAfter none lexemes)
      ++ itemsAfter (latestAfter none lexemes) (Scan.ofChars more.toList final) := by
  refine items_of_upTo ?_
  rw [String.toList_append]
  exact splits.upTo.append parted

theorem emissions_of_splits {source : String} {lexemes : List (Lexeme × Nat)} {final : Nat}
    (splits : Splits source.toList 0 lexemes final) :
    (TokenStream.ofText source).emissions
      = emissionsAfter none lexemes ++ [.written .endOfInput final] := by
  have scanned : Scan.ofText source = Scan.chain lexemes (.ended final) := splits.scan_eq
  have drawn := TokenStream.emissions_chain lexemes (.ended final) none
  rwa [TokenStream.emissions_ended, ← scanned] at drawn

theorem emissions_of_faulty {source : String} {lexemes : List (Lexeme × Nat)} {error : ScanError}
    (faulty : Faulty source.toList 0 lexemes error) :
    (TokenStream.ofText source).emissions
      = emissionsAfter none lexemes ++ [.refused error] := by
  have scanned : Scan.ofText source = Scan.chain lexemes (.refused error) := faulty.scan_eq
  have drawn := TokenStream.emissions_chain lexemes (.refused error) none
  rwa [TokenStream.emissions_refused, ← scanned] at drawn

/-- **A source that splits into lexemes has their tokens and the end as its items.** -/
theorem items_of_splits {source : String} {lexemes : List (Lexeme × Nat)} {final : Nat}
    (splits : Splits source.toList 0 lexemes final) :
    items source = endedStream (tokensAfter none lexemes) final := by
  rw [items, emissions_of_splits splits, List.map_append, item_emissionsAfter, endedStream_eq]
  rfl

/-- **A faulty source has the tokens of its lexemes and the error as its items.** -/
theorem items_of_faulty {source : String} {lexemes : List (Lexeme × Nat)} {error : ScanError}
    (faulty : Faulty source.toList 0 lexemes error) :
    items source = streamOf (tokensAfter none lexemes) ++ [.error error] := by
  rw [items, emissions_of_faulty faulty, List.map_append, item_emissionsAfter]
  rfl

/-- More text behind a faulty source changes nothing, if no run goes on there. -/
theorem Faulty.items_append {source more : String} {lexemes : List (Lexeme × Nat)}
    {error : ScanError} (faulty : Faulty source.toList 0 lexemes error)
    (parted : StartsRun source.toList ∨ EndsRun more.toList) :
    items (source ++ more) = streamOf (tokensAfter none lexemes) ++ [.error error] := by
  refine items_of_faulty ?_
  rw [String.toList_append]
  exact faulty.append parted

theorem items_of_not_splits {source : String}
    (unsplit : ¬ ∃ lexemes final, Splits source.toList 0 lexemes final) :
    ∃ lexemes error, items source = streamOf (tokensAfter none lexemes) ++ [.error error] := by
  obtain ⟨lexemes, ⟨final, splits⟩ | ⟨error, faulty⟩⟩ := splits_or_faulty source.toList 0
  · exact absurd ⟨lexemes, final, splits⟩ unsplit
  · exact ⟨lexemes, error, items_of_faulty faulty⟩

end InfixArithmetic
