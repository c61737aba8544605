import InfixArithmetic.Expression.Source
import InfixArithmetic.Proofs.Expression.Polish
import InfixArithmetic.Proofs.TokenStream.Lexemes

/-!
# The grammar of a source

Lexemes form an expression exactly when their tokens do, and it is the same
expression (`reads_iff_derives`).  The token before a lexeme decides what a plus or
minus is and whether a star is understood, and the grammar of lexemes decides the
same from the productions.  What ties the two together is the token that an
expression leaves behind: it is a number or a closing parenthesis, which awaits no
operand, and a production goes on behind it with an operator, which does.

From lexemes to tokens the proof goes by induction on the derivation.  Back from
tokens to lexemes it needs to know where a token came from: it is written, or it is
the star understood between a closing parenthesis and what follows
(`origin_of_tokensAfter`, and `drawn_of_tokensAfter` for any token).
-/

namespace InfixArithmetic

set_option autoImplicit false

/-! ## What a lexeme is behind a token -/

namespace Lexeme

theorem tokenAfter_of_op {lexeme : Lexeme} {op : BinaryOp} (shown : lexeme.op? = some op)
    {latest : Option Token} (complete : awaitsAfter latest = false) :
    lexeme.tokenAfter latest = .binary op := by
  cases lexeme with
  | plus | minus =>
      cases shown
      exact if_neg (by rw [← awaitsAfter, complete]; exact Bool.false_ne_true)
  | star | slash | percent =>
      cases shown
      rfl
  | number | opening | closing => cases shown

theorem tokenAfter_of_sign {lexeme : Lexeme} {polarity : Sign}
    (shown : lexeme.sign? = some polarity) {latest : Option Token}
    (awaited : awaitsAfter latest = true) : lexeme.tokenAfter latest = .sign polarity := by
  cases lexeme with
  | plus | minus =>
      cases shown
      exact if_pos awaited
  | number | star | slash | percent | opening | closing => cases shown

end Lexeme

/-- The lexeme that a token is written with. -/
def Token.lexeme? : Token → Option Lexeme
  | .number value => some (.number value)
  | .binary .add | .sign .plus => some .plus
  | .binary .sub | .sign .minus => some .minus
  | .binary .mul => some .star
  | .binary .div => some .slash
  | .binary .rem => some .percent
  | .opening => some .opening
  | .closing => some .closing
  | .endOfInput => none

theorem Lexeme.lexeme?_tokenAfter (lexeme : Lexeme) (latest : Option Token) :
    (lexeme.tokenAfter latest).lexeme? = some lexeme := by
  cases lexeme with
  | plus | minus =>
      rw [tokenAfter, TokenStream.tokenOf]
      split <;> rfl
  | number | star | slash | percent | opening | closing => rfl

theorem Lexeme.op?_of_tokenAfter {lexeme : Lexeme} {latest : Option Token} {op : BinaryOp}
    (seen : lexeme.tokenAfter latest = .binary op) : lexeme.op? = some op := by
  have shown := lexeme.lexeme?_tokenAfter latest
  rw [seen] at shown
  cases op <;> cases shown <;> rfl

theorem Lexeme.sign?_of_tokenAfter {lexeme : Lexeme} {latest : Option Token} {polarity : Sign}
    (seen : lexeme.tokenAfter latest = .sign polarity) : lexeme.sign? = some polarity := by
  have shown := lexeme.lexeme?_tokenAfter latest
  rw [seen] at shown
  cases polarity <;> cases shown <;> rfl

/-! ## Where a star is understood -/

/-- A star is understood behind a closing parenthesis only. -/
theorem latest_of_impliesStar {latest : Option Token} {token : Token}
    (implied : TokenStream.impliesStar latest token = true) : latest = some .closing := by
  cases token with
  | number | opening => exact of_decide_eq_true implied
  | binary | sign | closing | endOfInput => cases implied

/-- A star is understood before a number and an opening parenthesis only. -/
theorem startsFactor_of_impliesStar {latest : Option Token} {lexeme : Lexeme}
    (implied : TokenStream.impliesStar latest (lexeme.tokenAfter latest) = true) :
    lexeme.startsFactor = true := by
  cases lexeme with
  | number | opening => rfl
  | star | slash | percent | closing => cases implied
  | plus | minus =>
      rw [Lexeme.tokenAfter, TokenStream.tokenOf] at implied
      split at implied <;> cases implied

/-- The token of what starts a factor does not depend on the token before it. -/
theorem tokenAfter_of_startsFactor {lexeme : Lexeme} (starts : lexeme.startsFactor = true)
    (latest other : Option Token) : lexeme.tokenAfter latest = lexeme.tokenAfter other := by
  cases lexeme with
  | number | opening => rfl
  | plus | minus | star | slash | percent | closing => cases starts

theorem impliesStar_of_startsFactor {lexeme : Lexeme} (starts : lexeme.startsFactor = true)
    (latest : Option Token) :
    TokenStream.impliesStar (some .closing) (lexeme.tokenAfter latest) = true := by
  cases lexeme with
  | number | opening => rfl
  | plus | minus | star | slash | percent | closing => cases starts

theorem not_impliesStar_of_awaits {latest : Option Token} (awaited : awaitsAfter latest = true)
    (token : Token) : ¬ TokenStream.impliesStar latest token = true := by
  intro implied
  rw [latest_of_impliesStar implied] at awaited
  cases awaited

/-! ## From lexemes to tokens -/

/-- Where an operand is awaited, lexemes have the tokens of an expression, and an
operator has to follow behind them. -/
def TokensDerive (rank : Rank) (lexemes : List (Lexeme × Nat)) (expression : Expression) : Prop :=
  ∀ latest, awaitsAfter latest = true →
    Derives rank (tokensAfter latest lexemes) expression ∧
      awaitsAfter (latestAfter latest lexemes) = false

theorem TokensDerive.signed {lexemes : List (Lexeme × Nat)} {operand : Expression}
    (derive : TokensDerive .unit lexemes operand) {lexeme : Lexeme} {polarity : Sign}
    (shown : lexeme.sign? = some polarity) (position : Nat) :
    TokensDerive .unit ((lexeme, position) :: lexemes) (.signed polarity position operand) := by
  intro latest awaited
  have token := Lexeme.tokenAfter_of_sign shown awaited
  obtain ⟨derived, complete⟩ := derive (some (.sign polarity)) rfl
  rw [tokensAfter_of_written (not_impliesStar_of_awaits awaited _), latestAfter, token]
  exact ⟨.signed polarity position derived, complete⟩

theorem TokensDerive.group {lexemes : List (Lexeme × Nat)} {body : Expression}
    (derive : TokensDerive .sum lexemes body) (opening closing : Nat) :
    TokensDerive .unit ((.opening, opening) :: lexemes ++ [(.closing, closing)])
      (.group opening body closing) := by
  intro latest awaited
  obtain ⟨derived, complete⟩ := derive (some .opening) rfl
  rw [List.cons_append, tokensAfter_of_written (not_impliesStar_of_awaits awaited _),
    latestAfter, latestAfter_append]
  refine ⟨?_, rfl⟩
  have inside := tokensAfter_append (some .opening) lexemes [(.closing, closing)]
  exact (congrArg (fun tokens => Derives .unit tokens _)
    (congrArg ((Token.opening, opening) :: ·) inside)).mpr (.group opening closing derived)

theorem TokensDerive.binary {rank : Rank} {front back : List (Lexeme × Nat)}
    {left right : Expression} {op : BinaryOp} (ranked : op.rank = rank)
    (deriveLeft : TokensDerive rank front left)
    (deriveRight : TokensDerive rank.tighter back right) {lexeme : Lexeme}
    (shown : lexeme.op? = some op) (position : Nat) :
    TokensDerive rank (front ++ (lexeme, position) :: back)
      (.binary op position left right) := by
  subst ranked
  intro latest awaited
  obtain ⟨derivedLeft, completeLeft⟩ := deriveLeft latest awaited
  obtain ⟨derivedRight, completeRight⟩ := deriveRight (some (.binary op)) rfl
  have token := Lexeme.tokenAfter_of_op shown completeLeft
  rw [tokensAfter_append, latestAfter_append, tokensAfter_of_written, latestAfter, token]
  · exact ⟨.binary op position derivedLeft derivedRight, completeRight⟩
  · rw [token]
    exact Bool.false_ne_true

/-- Two factors with nothing between them. -/
theorem TokensDerive.juxtapose {front back : List (Lexeme × Nat)} {left right : Expression}
    {closing position : Nat} {first : Lexeme}
    (deriveLeft : TokensDerive .product (front ++ [(.closing, closing)]) left)
    (deriveRight : TokensDerive .unit ((first, position) :: back) right)
    (starts : first.startsFactor = true) :
    TokensDerive .product (front ++ (.closing, closing) :: (first, position) :: back)
      (.binary .mul position left right) := by
  intro latest awaited
  obtain ⟨derivedLeft, completeLeft⟩ := deriveLeft latest awaited
  obtain ⟨derivedRight, completeRight⟩ := deriveRight (some (.binary .mul)) rfl
  have behind : latestAfter latest (front ++ [(.closing, closing)]) = some .closing :=
    latestAfter_append ..
  have later := latestAfter_append latest (front ++ [(.closing, closing)])
    ((first, position) :: back)
  rw [behind] at later
  rw [tokensAfter_of_written (not_impliesStar_of_awaits rfl _),
    tokenAfter_of_startsFactor starts _ (some .closing)] at derivedRight
  rw [latestAfter, tokenAfter_of_startsFactor starts _ (some .closing)] at completeRight
  rw [List.append_cons, later, tokensAfter_append, behind,
    tokensAfter_of_implied (impliesStar_of_startsFactor starts _)]
  exact ⟨.multiply .mul position rfl derivedLeft derivedRight, completeRight⟩

/-- **Lexemes that read as an expression have its tokens.** -/
theorem tokensDerive_of_reads {rank : Rank} {lexemes : List (Lexeme × Nat)}
    {expression : Expression} (read : Reads rank lexemes expression) :
    TokensDerive rank lexemes expression := by
  induction read with
  | number value position =>
      intro latest awaited
      rw [tokensAfter_of_written (not_impliesStar_of_awaits awaited _)]
      exact ⟨.number value position, rfl⟩
  | signed lexeme polarity position shown read ih => exact ih.signed shown position
  | group opening closing read ih => exact ih.group opening closing
  | ofUnit read ih => exact fun latest awaited => (ih latest awaited).imp_left .ofUnit
  | multiply lexeme op position shown ranked readLeft readRight ihLeft ihRight =>
      exact .binary ranked ihLeft ihRight shown position
  | juxtapose closing first position starts readLeft readRight ihLeft ihRight =>
      exact ihLeft.juxtapose ihRight starts
  | ofProduct read ih => exact fun latest awaited => (ih latest awaited).imp_left .ofProduct
  | add lexeme op position shown ranked readLeft readRight ihLeft ihRight =>
      exact .binary ranked ihLeft ihRight shown position

/-! ## Where tokens come from -/

theorem eq_nil_of_tokensAfter_eq_nil {latest : Option Token} {lexemes : List (Lexeme × Nat)}
    (none : tokensAfter latest lexemes = []) : lexemes = [] := by
  cases lexemes with
  | nil => rfl
  | cons placed rest =>
      rw [tokensAfter] at none
      split at none <;> cases none

theorem tokensAfter_cons (latest : Option Token) (lexeme : Lexeme) (position : Nat)
    (rest : List (Lexeme × Nat)) :
    tokensAfter latest ((lexeme, position) :: rest)
      = tokensAfter latest [(lexeme, position)]
        ++ tokensAfter (some (lexeme.tokenAfter latest)) rest :=
  tokensAfter_append latest [(lexeme, position)] rest

/-- Where an operand is awaited, the first token is that of the first lexeme. -/
theorem exists_of_tokensAfter_eq_cons {latest : Option Token} {lexemes : List (Lexeme × Nat)}
    (awaited : awaitsAfter latest = true) {token : Token} {position : Nat}
    {rest : List (Token × Nat)} (seen : tokensAfter latest lexemes = (token, position) :: rest) :
    ∃ lexeme others, lexemes = (lexeme, position) :: others ∧
      lexeme.tokenAfter latest = token ∧ tokensAfter (some token) others = rest := by
  cases lexemes with
  | nil => cases seen
  | cons placed others =>
      obtain ⟨lexeme, place⟩ := placed
      rw [tokensAfter_of_written (not_impliesStar_of_awaits awaited _)] at seen
      cases seen
      exact ⟨lexeme, others, rfl, rfl, rfl⟩

/-- Where a token among those of lexemes is drawn, and with it the tokens before and behind
it. -/
inductive Drawn (latest : Option Token) (position : Nat) :
    List (Lexeme × Nat) → List (Token × Nat) → Token → List (Token × Nat) → Prop where
  /-- The token is that of a lexeme, with no star understood before it. -/
  | alone (before : List (Lexeme × Nat)) (lexeme : Lexeme) (behind : List (Lexeme × Nat))
      (noStar : ¬ TokenStream.impliesStar (latestAfter latest before)
        (lexeme.tokenAfter (latestAfter latest before)) = true) :
    Drawn latest position (before ++ (lexeme, position) :: behind) (tokensAfter latest before)
      (lexeme.tokenAfter (latestAfter latest before))
      (tokensAfter (some (lexeme.tokenAfter (latestAfter latest before))) behind)
  /-- The token is a star that is understood before a lexeme. -/
  | star (before : List (Lexeme × Nat)) (lexeme : Lexeme) (behind : List (Lexeme × Nat))
      (closed : latestAfter latest before = some .closing)
      (starts : lexeme.startsFactor = true) :
    Drawn latest position (before ++ (lexeme, position) :: behind) (tokensAfter latest before)
      (.binary .mul)
      ((lexeme.tokenAfter (latestAfter latest before), position)
        :: tokensAfter (some (lexeme.tokenAfter (latestAfter latest before))) behind)
  /-- The token is that of a lexeme that a star is understood before. -/
  | behindStar (before : List (Lexeme × Nat)) (lexeme : Lexeme) (behind : List (Lexeme × Nat))
      (starts : lexeme.startsFactor = true) :
    Drawn latest position (before ++ (lexeme, position) :: behind)
      (tokensAfter latest before ++ [(.binary .mul, position)])
      (lexeme.tokenAfter (latestAfter latest before))
      (tokensAfter (some (lexeme.tokenAfter (latestAfter latest before))) behind)

theorem Drawn.behind {latest : Option Token} {position : Nat} {lexeme : Lexeme}
    {rest : List (Lexeme × Nat)} {front back : List (Token × Nat)} {token : Token}
    (drawn : Drawn (some (lexeme.tokenAfter latest)) position rest front token back)
    (place : Nat) :
    Drawn latest position ((lexeme, place) :: rest)
      (tokensAfter latest [(lexeme, place)] ++ front) token back := by
  cases drawn with
  | alone before other behind noStar =>
      rw [← tokensAfter_cons]
      exact .alone ((lexeme, place) :: before) other behind noStar
  | star before other behind closed starts =>
      rw [← tokensAfter_cons]
      exact .star ((lexeme, place) :: before) other behind closed starts
  | behindStar before other behind starts =>
      rw [← List.append_assoc, ← tokensAfter_cons]
      exact .behindStar ((lexeme, place) :: before) other behind starts

/-- **Every token of lexemes is drawn in one of three ways.** -/
theorem drawn_of_tokensAfter {latest : Option Token} {lexemes : List (Lexeme × Nat)}
    {front back : List (Token × Nat)} {token : Token} {position : Nat}
    (seen : tokensAfter latest lexemes = front ++ (token, position) :: back) :
    Drawn latest position lexemes front token back := by
  induction lexemes generalizing latest front with
  | nil => exact absurd seen.symm (List.append_ne_nil_of_right_ne_nil front nofun)
  | cons placed rest ih =>
      obtain ⟨lexeme, place⟩ := placed
      by_cases implied : TokenStream.impliesStar latest (lexeme.tokenAfter latest) = true
      · have starts := startsFactor_of_impliesStar implied
        have single := tokensAfter_of_implied implied place []
        rw [tokensAfter_of_implied implied] at seen
        match front, seen with
        | [], seen =>
            cases seen
            exact .star [] lexeme rest (latest_of_impliesStar implied) starts
        | [_], seen =>
            cases seen
            exact .behindStar [] lexeme rest starts
        | _ :: _ :: front, seen =>
            injection seen with star seen
            injection seen with read seen
            subst star read
            have drawn := (ih seen).behind place
            rwa [single] at drawn
      · have single := tokensAfter_of_written implied place []
        rw [tokensAfter_of_written implied] at seen
        cases front with
        | nil =>
            cases seen
            exact .alone [] lexeme rest implied
        | cons first front =>
            injection seen with read seen
            subst read
            have drawn := (ih seen).behind place
            rwa [single] at drawn

/-- A token that shows a lexeme is written, and behind it come the tokens of what is behind the
lexeme; or it is an understood star.  Only what starts a factor has a star before it. -/
theorem Drawn.cases_of_shown {latest : Option Token} {position : Nat}
    {lexemes : List (Lexeme × Nat)} {front back : List (Token × Nat)} {token : Token}
    (drawn : Drawn latest position lexemes front token back) {lexeme : Lexeme}
    (shown : token.lexeme? = some lexeme) :
    (∃ before behind, lexemes = before ++ (lexeme, position) :: behind ∧
        back = tokensAfter (some token) behind ∧
          (front = tokensAfter latest before ∨ lexeme.startsFactor = true)) ∨
      (lexeme = .star ∧ ∃ before, front = tokensAfter latest before ∧
        latestAfter latest before = some .closing) := by
  cases drawn with
  | alone before other behind noStar =>
      cases shown.symm.trans (other.lexeme?_tokenAfter _)
      exact .inl ⟨before, behind, rfl, rfl, .inl rfl⟩
  | star before other behind closed starts =>
      cases shown
      exact .inr ⟨rfl, before, rfl, closed⟩
  | behindStar before other behind starts =>
      cases shown.symm.trans (other.lexeme?_tokenAfter _)
      exact .inl ⟨before, behind, rfl, rfl, .inr starts⟩

/-- A token that is drawn for lexemes shows one of them in its place, unless it may be an
understood star. -/
theorem Drawn.mem_lexemes {latest : Option Token} {position : Nat}
    {lexemes : List (Lexeme × Nat)} {front back : List (Token × Nat)} {token : Token}
    (drawn : Drawn latest position lexemes front token back) {lexeme : Lexeme}
    (shown : token.lexeme? = some lexeme) (notStar : lexeme ≠ .star) :
    (lexeme, position) ∈ lexemes := by
  obtain ⟨before, behind, rfl, -⟩ | ⟨isStar, -⟩ := drawn.cases_of_shown shown
  · exact List.mem_append_right before List.mem_cons_self
  · exact absurd isStar notStar

/-- Where a token that starts no factor comes from, and with it the tokens before and
behind it. -/
inductive Origin (latest : Option Token) (position : Nat) :
    List (Lexeme × Nat) → List (Token × Nat) → Token → List (Token × Nat) → Prop where
  /-- The token is that of a lexeme. -/
  | written (before : List (Lexeme × Nat)) (lexeme : Lexeme) (behind : List (Lexeme × Nat))
      {token : Token} (read : lexeme.tokenAfter (latestAfter latest before) = token) :
    Origin latest position (before ++ (lexeme, position) :: behind) (tokensAfter latest before)
      token (tokensAfter (some token) behind)
  /-- The token is a star that is understood before a lexeme. -/
  | understood (before : List (Lexeme × Nat)) (first : Lexeme) (behind : List (Lexeme × Nat))
      (closed : latestAfter latest before = some .closing)
      (starts : first.startsFactor = true) :
    Origin latest position (before ++ (first, position) :: behind) (tokensAfter latest before)
      (.binary .mul) (tokensAfter (some (.binary .mul)) ((first, position) :: behind))

/-- **A token that does not start a factor is written, or it is an understood star.** -/
theorem origin_of_tokensAfter {latest : Option Token} {lexemes : List (Lexeme × Nat)}
    {front back : List (Token × Nat)} {token : Token} {position : Nat}
    (binds : TokenStream.impliesStar (some .closing) token = false)
    (seen : tokensAfter latest lexemes = front ++ (token, position) :: back) :
    Origin latest position lexemes front token back := by
  cases drawn_of_tokensAfter seen with
  | alone before lexeme behind noStar => exact .written before lexeme behind rfl
  | star before lexeme behind closed starts =>
      have understood : Origin latest position (before ++ (lexeme, position) :: behind) _ _ _ :=
        .understood before lexeme behind closed starts
      rwa [tokensAfter_of_written (not_impliesStar_of_awaits rfl _),
        tokenAfter_of_startsFactor starts _ (latestAfter latest before)] at understood
  | behindStar before lexeme behind starts =>
      rw [impliesStar_of_startsFactor starts] at binds
      cases binds

/-- The token that lexemes leave behind is the one of the last of them. -/
theorem exists_of_latestAfter {latest : Option Token} {lexemes : List (Lexeme × Nat)}
    {last : Token} (behind : latestAfter latest lexemes = some last)
    (notBefore : latest ≠ some last) :
    ∃ front lexeme place, lexemes = front ++ [(lexeme, place)] ∧ last.lexeme? = some lexeme := by
  obtain rfl | ⟨front, placed, rfl⟩ := List.eq_nil_or_concat lexemes
  · exact absurd behind notBefore
  · obtain ⟨lexeme, place⟩ := placed
    rw [List.concat_eq_append] at behind ⊢
    rw [latestAfter_append] at behind
    injection behind with read
    refine ⟨front, lexeme, place, rfl, ?_⟩
    rw [← read]
    exact lexeme.lexeme?_tokenAfter _

theorem exists_of_latestAfter_closing {latest : Option Token} {lexemes : List (Lexeme × Nat)}
    (awaited : awaitsAfter latest = true) (closed : latestAfter latest lexemes = some .closing) :
    ∃ front closing, lexemes = front ++ [(.closing, closing)] := by
  have notBefore : latest ≠ some .closing := by
    rintro rfl
    cases awaited
  obtain ⟨front, lexeme, place, rfl, shown⟩ := exists_of_latestAfter closed notBefore
  cases shown
  exact ⟨front, place, rfl⟩

/-! ## From tokens to lexemes -/

/-- **Lexemes that have the tokens of an expression read as that expression.** -/
theorem reads_of_derives {rank : Rank} {tokens : List (Token × Nat)} {expression : Expression}
    (derived : Derives rank tokens expression) {latest : Option Token}
    {lexemes : List (Lexeme × Nat)} (awaited : awaitsAfter latest = true)
    (seen : tokensAfter latest lexemes = tokens) : Reads rank lexemes expression := by
  induction derived generalizing latest lexemes with
  | number value position =>
      obtain ⟨lexeme, others, rfl, read, alone⟩ := exists_of_tokensAfter_eq_cons awaited seen
      have shown := lexeme.lexeme?_tokenAfter latest
      rw [read] at shown
      cases shown
      cases eq_nil_of_tokensAfter_eq_nil alone
      exact .number value position
  | signed polarity position derived ih =>
      obtain ⟨lexeme, others, rfl, read, behind⟩ := exists_of_tokensAfter_eq_cons awaited seen
      exact .signed lexeme polarity position (Lexeme.sign?_of_tokenAfter read) (ih rfl behind)
  | group opening closing derived ih =>
      obtain ⟨lexeme, others, rfl, read, behind⟩ := exists_of_tokensAfter_eq_cons awaited seen
      have shown := lexeme.lexeme?_tokenAfter latest
      rw [read] at shown
      cases shown
      generalize nothing : ([] : List (Token × Nat)) = back at behind
      cases origin_of_tokensAfter rfl behind with
      | written before last rest readLast =>
          have shownLast := last.lexeme?_tokenAfter (latestAfter (some .opening) before)
          rw [readLast] at shownLast
          cases shownLast
          cases eq_nil_of_tokensAfter_eq_nil nothing.symm
          exact .group opening closing (ih rfl rfl)
  | ofUnit derived ih => exact .ofUnit (ih awaited seen)
  | multiply op position ranked derivedLeft derivedRight ihLeft ihRight =>
      cases origin_of_tokensAfter rfl seen with
      | written before lexeme behind read =>
          exact .multiply lexeme op position (Lexeme.op?_of_tokenAfter read) ranked
            (ihLeft awaited rfl) (ihRight rfl rfl)
      | understood before first behind closed starts =>
          obtain ⟨front, closing, rfl⟩ := exists_of_latestAfter_closing awaited closed
          rw [List.append_assoc]
          exact .juxtapose closing first position starts (ihLeft awaited rfl) (ihRight rfl rfl)
  | ofProduct derived ih => exact .ofProduct (ih awaited seen)
  | add op position ranked derivedLeft derivedRight ihLeft ihRight =>
      cases origin_of_tokensAfter rfl seen with
      | written before lexeme behind read =>
          exact .add lexeme op position (Lexeme.op?_of_tokenAfter read) ranked
            (ihLeft awaited rfl) (ihRight rfl rfl)
      | understood before first behind closed starts => cases ranked

/-- **Where an operand is awaited, lexemes read as an expression exactly when their tokens
are derived for it.** -/
theorem reads_iff_derives {rank : Rank} {latest : Option Token} {lexemes : List (Lexeme × Nat)}
    {expression : Expression} (awaited : awaitsAfter latest = true) :
    Reads rank lexemes expression ↔ Derives rank (tokensAfter latest lexemes) expression :=
  ⟨fun read => (tokensDerive_of_reads read latest awaited).1,
    fun derived => reads_of_derives derived awaited rfl⟩

/-! ## The language of sources -/

/-- A source that splits into the lexemes of an expression is written as its post-order. -/
theorem toReversePolish_of_reads {source : String} {lexemes : List (Lexeme × Nat)}
    {final : Nat} {expression : Expression} (splits : Splits source.toList 0 lexemes final)
    (read : Reads .sum lexemes expression) :
    toReversePolish source = .ok expression.postorder := by
  rw [toReversePolish, items_of_splits splits, endedStream_eq]
  exact polishRun_of_derives ((reads_iff_derives rfl).mp read) (ends_endOfInput final)

theorem reads_of_toReversePolish {source : String} {written : List Token}
    (answered : toReversePolish source = .ok written) :
    ∃ lexemes final expression,
      Splits source.toList 0 lexemes final ∧ Reads .sum lexemes expression := by
  by_cases split : ∃ lexemes final, Splits source.toList 0 lexemes final
  · obtain ⟨lexemes, final, splits⟩ := split
    rw [toReversePolish, items_of_splits splits, endedStream_eq] at answered
    obtain ⟨expression, derived⟩ :=
      derives_of_polishRun ne_endOfInput_of_mem_tokensAfter (ends_endOfInput final) answered
    exact ⟨lexemes, final, expression, splits, (reads_iff_derives rfl).mpr derived⟩
  · obtain ⟨lexemes, error, items_eq⟩ := items_of_not_splits split
    have noEnd : ∀ placed ∈ tokensAfter none lexemes, placed.1 ≠ .endOfInput :=
      ne_endOfInput_of_mem_tokensAfter
    obtain ⟨failure, failed⟩ := runFrom_of_scanError (β := List Token) error noEnd
      (Machine.start ({} : ReversePolish)) 0
    rw [toReversePolish, items_eq, polishRun, run, failed] at answered
    cases answered

/-- **The language of sources.**  A source is written in reverse Polish order exactly when
it splits into blanks, literals and symbols and its lexemes read as an expression.  It does
so in one way only, and what is written is the post-order of the tree, which has a sign
where the unit shows one and a star where two factors stand side by side. -/
theorem toReversePolish_decides_language (source : String) :
    ((∃ written, toReversePolish source = .ok written) ↔
        ∃ lexemes final expression,
          Splits source.toList 0 lexemes final ∧ Reads .sum lexemes expression) ∧
      ∀ lexemes final expression,
        Splits source.toList 0 lexemes final → Reads .sum lexemes expression →
          (∀ others place, Splits source.toList 0 others place →
              others = lexemes ∧ place = final) ∧
            (∀ other, Reads .sum lexemes other → other = expression) ∧
              toReversePolish source = .ok expression.postorder := by
  refine ⟨⟨?_, ?_⟩, ?_⟩
  · rintro ⟨written, answered⟩
    exact reads_of_toReversePolish answered
  · rintro ⟨lexemes, final, expression, splits, read⟩
    exact ⟨expression.postorder, toReversePolish_of_reads splits read⟩
  · intro lexemes final expression splits read
    refine ⟨fun others place splitsOther => splitsOther.unique splits, fun other readOther => ?_,
      toReversePolish_of_reads splits read⟩
    have derived : Derives .sum (tokensAfter none lexemes) expression :=
      (reads_iff_derives rfl).mp read
    exact ((reads_iff_derives rfl).mp readOther).unique derived

end InfixArithmetic
