import InfixArithmetic.Proofs.Expression.Context
import InfixArithmetic.Proofs.Expression.Source
import InfixArithmetic.Proofs.Expression.Value

/-!
# Parts of an expression

A part of an expression has lexemes of its own among those of the whole, with some before and
some behind them.  `Surrounds` is a derivation of the whole with the part left open: it has the
productions of `Reads`, and of the two sides of a production it follows the one that the part is
in.  Every subtree is such a part (`Surrounds.exists_of_reads`), and with the part in it the
derivation reads the whole (`Surrounds.reads`).
-/

namespace InfixArithmetic

set_option autoImplicit false

open Expression (Context)

/-! ## Readings in other places -/

namespace Reads

variable {rank : Rank} {lexemes : List (Lexeme × Nat)} {expression : Expression}

theorem ne_nil (read : Reads rank lexemes expression) : lexemes ≠ [] := by
  induction read with
  | number | signed | group => exact List.cons_ne_nil _ _
  | ofUnit read ih | ofProduct read ih => exact ih
  | multiply lexeme op position shown ranked readLeft readRight ihLeft ihRight
  | add lexeme op position shown ranked readLeft readRight ihLeft ihRight =>
      exact List.append_ne_nil_of_left_ne_nil ihLeft _
  | juxtapose closing first position starts readLeft readRight ihLeft ihRight =>
      exact List.append_ne_nil_of_right_ne_nil _ (List.cons_ne_nil _ _)

theorem toSum (read : Reads rank lexemes expression) : Reads .sum lexemes expression := by
  cases rank with
  | sum => exact read
  | product => exact .ofProduct read
  | unit => exact .ofProduct (.ofUnit read)

theorem ofUnitTo (read : Reads .unit lexemes expression) (rank : Rank) :
    Reads rank lexemes expression := by
  cases rank with
  | sum => exact .ofProduct (.ofUnit read)
  | product => exact .ofUnit read
  | unit => exact read

/-- **Lexemes in other places read as the same tree there.** -/
theorem relocate (read : Reads rank lexemes expression) (move : Nat → Nat) :
    Reads rank (lexemes.map (relocatePlaced move)) (expression.relocate move) := by
  induction read with
  | number value position => exact .number value (move position)
  | signed lexeme polarity position shown read ih =>
      exact .signed lexeme polarity (move position) shown ih
  | group opening closing read ih =>
      rw [List.map_append]
      exact .group (move opening) (move closing) ih
  | ofUnit read ih => exact .ofUnit ih
  | multiply lexeme op position shown ranked readLeft readRight ihLeft ihRight =>
      rw [List.map_append]
      exact .multiply lexeme op (move position) shown ranked ihLeft ihRight
  | juxtapose closing first position starts readLeft readRight ihLeft ihRight =>
      rw [List.map_append] at ihLeft ⊢
      exact .juxtapose (move closing) first (move position) starts ihLeft ihRight
  | ofProduct read ih => exact .ofProduct ih
  | add lexeme op position shown ranked readLeft readRight ihLeft ihRight =>
      rw [List.map_append]
      exact .add lexeme op (move position) shown ranked ihLeft ihRight

/-- The tokens of a tree stand where its lexemes stand. -/
theorem forall_token {P : Nat → Prop} (read : Reads rank lexemes expression)
    (holds : ∀ placed ∈ lexemes, P placed.2) : ∀ placed ∈ expression.tokens, P placed.2 := by
  induction read with
  | number value position => exact List.forall_mem_singleton.mpr (holds _ List.mem_cons_self)
  | signed lexeme polarity position shown read ih =>
      obtain ⟨here, inside⟩ := List.forall_mem_cons.mp holds
      exact List.forall_mem_cons.mpr ⟨here, ih inside⟩
  | group opening closing read ih =>
      obtain ⟨here, inside⟩ := List.forall_mem_cons.mp holds
      obtain ⟨inside, there⟩ := List.forall_mem_append.mp inside
      refine List.forall_mem_cons.mpr ⟨here, List.forall_mem_append.mpr ⟨ih inside, ?_⟩⟩
      exact List.forall_mem_singleton.mpr (there _ List.mem_cons_self)
  | ofUnit read ih | ofProduct read ih => exact ih holds
  | multiply lexeme op position shown ranked readLeft readRight ihLeft ihRight
  | add lexeme op position shown ranked readLeft readRight ihLeft ihRight =>
      obtain ⟨left, behind⟩ := List.forall_mem_append.mp holds
      obtain ⟨here, right⟩ := List.forall_mem_cons.mp behind
      exact List.forall_mem_append.mpr ⟨ihLeft left, List.forall_mem_cons.mpr ⟨here, ihRight right⟩⟩
  | juxtapose closing first position starts readLeft readRight ihLeft ihRight =>
      rw [List.append_cons] at holds
      obtain ⟨left, right⟩ := List.forall_mem_append.mp holds
      refine List.forall_mem_append.mpr ⟨ihLeft left, List.forall_mem_cons.mpr ⟨?_, ihRight right⟩⟩
      exact right _ List.mem_cons_self

/-- No binary operator of a tree stands where its first lexeme stands. -/
theorem forall_binary {P : Nat → Prop} (read : Reads rank lexemes expression)
    (holds : ∀ placed ∈ lexemes.tail, P placed.2) :
    ∀ op position, (.binary op, position) ∈ expression.tokens → P position := by
  induction read with
  | number value position =>
      intro op place member
      cases List.mem_singleton.mp member
  | signed lexeme polarity position shown read ih =>
      intro op place member
      obtain same | member := List.mem_cons.mp member
      · cases same
      · exact read.forall_token holds _ member
  | group opening closing read ih =>
      intro op place member
      obtain ⟨inside, -⟩ := List.forall_mem_append.mp holds
      obtain same | member := List.mem_cons.mp member
      · cases same
      obtain member | same := List.mem_append.mp member
      · exact read.forall_token inside _ member
      · cases List.mem_singleton.mp same
  | ofUnit read ih | ofProduct read ih => exact ih holds
  | multiply lexeme op position shown ranked readLeft readRight ihLeft ihRight
  | add lexeme op position shown ranked readLeft readRight ihLeft ihRight =>
      rw [List.tail_append_of_ne_nil readLeft.ne_nil] at holds
      obtain ⟨left, behind⟩ := List.forall_mem_append.mp holds
      obtain ⟨here, right⟩ := List.forall_mem_cons.mp behind
      intro other place member
      obtain member | member := List.mem_append.mp member
      · exact ihLeft left other place member
      obtain same | member := List.mem_cons.mp member
      · cases same
        exact here
      · exact readRight.forall_token right _ member
  | juxtapose closing first position starts readLeft readRight ihLeft ihRight =>
      rw [List.append_cons, List.tail_append_of_ne_nil readLeft.ne_nil] at holds
      obtain ⟨left, right⟩ := List.forall_mem_append.mp holds
      intro other place member
      obtain member | member := List.mem_append.mp member
      · exact ihLeft left other place member
      obtain same | member := List.mem_cons.mp member
      · cases same
        exact right _ List.mem_cons_self
      · exact readRight.forall_token right _ member

end Reads

/-! ## Subexpressions -/

/-- The lexemes `part`, with others before and behind them, are read as `sub` when the whole is
read as an expression of a rank, which is `sub` in a context. -/
inductive Surrounds (part : List (Lexeme × Nat)) (sub : Expression) :
    Rank → List (Lexeme × Nat) → List (Lexeme × Nat) → Context → Prop where
  | here {rank : Rank} (read : Reads rank part sub) : Surrounds part sub rank [] [] .hole
  | signed {front back : List (Lexeme × Nat)} {context : Context} (lexeme : Lexeme)
      (polarity : Sign) (position : Nat) (shown : lexeme.sign? = some polarity)
      (inner : Surrounds part sub .unit front back context) :
    Surrounds part sub .unit ((lexeme, position) :: front) back
      (.signed polarity position context)
  | group {front back : List (Lexeme × Nat)} {context : Context} (opening closing : Nat)
      (inner : Surrounds part sub .sum front back context) :
    Surrounds part sub .unit ((.opening, opening) :: front) (back ++ [(.closing, closing)])
      (.group opening context closing)
  | ofUnit {front back : List (Lexeme × Nat)} {context : Context}
      (inner : Surrounds part sub .unit front back context) :
    Surrounds part sub .product front back context
  | multiplyLeft {front back others : List (Lexeme × Nat)} {context : Context}
      {right : Expression} (lexeme : Lexeme) (op : BinaryOp) (position : Nat)
      (shown : lexeme.op? = some op) (ranked : op.rank = .product)
      (inner : Surrounds part sub .product front back context)
      (readRight : Reads .unit others right) :
    Surrounds part sub .product front (back ++ (lexeme, position) :: others)
      (.inLeft op position context right)
  | multiplyRight {front back others : List (Lexeme × Nat)} {context : Context}
      {left : Expression} (lexeme : Lexeme) (op : BinaryOp) (position : Nat)
      (shown : lexeme.op? = some op) (ranked : op.rank = .product)
      (readLeft : Reads .product others left)
      (inner : Surrounds part sub .unit front back context) :
    Surrounds part sub .product (others ++ (lexeme, position) :: front) back
      (.inRight op position left context)
  | juxtaposeLeft {front back others behind : List (Lexeme × Nat)} {context : Context}
      {right : Expression} (closing : Nat) (first : Lexeme) (position : Nat)
      (starts : first.startsFactor = true)
      (closed : front ++ (part ++ back) = others ++ [(.closing, closing)])
      (inner : Surrounds part sub .product front back context)
      (readRight : Reads .unit ((first, position) :: behind) right) :
    Surrounds part sub .product front (back ++ (first, position) :: behind)
      (.inLeft .mul position context right)
  | juxtaposeRight {front back others behind : List (Lexeme × Nat)} {context : Context}
      {left : Expression} (closing : Nat) (first : Lexeme) (position : Nat)
      (starts : first.startsFactor = true)
      (readLeft : Reads .product (others ++ [(.closing, closing)]) left)
      (begins : front ++ (part ++ back) = (first, position) :: behind)
      (inner : Surrounds part sub .unit front back context) :
    Surrounds part sub .product (others ++ (.closing, closing) :: front) back
      (.inRight .mul position left context)
  | ofProduct {front back : List (Lexeme × Nat)} {context : Context}
      (inner : Surrounds part sub .product front back context) :
    Surrounds part sub .sum front back context
  | addLeft {front back others : List (Lexeme × Nat)} {context : Context}
      {right : Expression} (lexeme : Lexeme) (op : BinaryOp) (position : Nat)
      (shown : lexeme.op? = some op) (ranked : op.rank = .sum)
      (inner : Surrounds part sub .sum front back context)
      (readRight : Reads .product others right) :
    Surrounds part sub .sum front (back ++ (lexeme, position) :: others)
      (.inLeft op position context right)
  | addRight {front back others : List (Lexeme × Nat)} {context : Context}
      {left : Expression} (lexeme : Lexeme) (op : BinaryOp) (position : Nat)
      (shown : lexeme.op? = some op) (ranked : op.rank = .sum)
      (readLeft : Reads .sum others left)
      (inner : Surrounds part sub .product front back context) :
    Surrounds part sub .sum (others ++ (lexeme, position) :: front) back
      (.inRight op position left context)

namespace Surrounds

variable {part front back : List (Lexeme × Nat)} {sub : Expression} {rank : Rank}
  {context : Context}

theorem exists_reads (surrounds : Surrounds part sub rank front back context) :
    ∃ inner, Reads inner part sub := by
  induction surrounds with
  | here read => exact ⟨_, read⟩
  | signed | group | ofUnit | multiplyLeft | multiplyRight | juxtaposeLeft | juxtaposeRight
  | ofProduct | addLeft | addRight => assumption

theorem part_ne_nil (surrounds : Surrounds part sub rank front back context) : part ≠ [] :=
  surrounds.exists_reads.elim fun _ read => read.ne_nil

/-- **The whole is read as the subexpression in its context.** -/
theorem reads (surrounds : Surrounds part sub rank front back context) :
    Reads rank (front ++ (part ++ back)) (context.plug sub) := by
  induction surrounds with
  | here read =>
      rw [List.append_nil]
      exact read
  | signed lexeme polarity position shown inner ih =>
      exact .signed lexeme polarity position shown ih
  | group opening closing inner ih =>
      have read := Reads.group opening closing ih
      simp only [List.cons_append, List.append_assoc] at read ⊢
      exact read
  | ofUnit inner ih => exact .ofUnit ih
  | multiplyLeft lexeme op position shown ranked inner readRight ih =>
      have read := Reads.multiply lexeme op position shown ranked ih readRight
      rw [List.append_assoc, List.append_assoc] at read
      exact read
  | multiplyRight lexeme op position shown ranked readLeft inner ih =>
      rw [List.append_assoc]
      exact .multiply lexeme op position shown ranked readLeft ih
  | juxtaposeLeft closing first position starts closed inner readRight ih =>
      rw [closed] at ih
      have read := Reads.juxtapose closing first position starts ih readRight
      rw [List.append_cons, ← closed, List.append_assoc, List.append_assoc] at read
      exact read
  | juxtaposeRight closing first position starts readLeft begins inner ih =>
      rw [begins] at ih
      have read := Reads.juxtapose closing first position starts readLeft ih
      rw [← begins] at read
      rw [List.append_assoc]
      exact read
  | ofProduct inner ih => exact .ofProduct ih
  | addLeft lexeme op position shown ranked inner readRight ih =>
      have read := Reads.add lexeme op position shown ranked ih readRight
      rw [List.append_assoc, List.append_assoc] at read
      exact read
  | addRight lexeme op position shown ranked readLeft inner ih =>
      rw [List.append_assoc]
      exact .add lexeme op position shown ranked readLeft ih

theorem exists_whole {lexemes : List (Lexeme × Nat)} {expression : Expression}
    (read : Reads rank lexemes expression) :
    ∃ front part back, lexemes = front ++ (part ++ back) ∧
      Surrounds part expression rank front back .hole :=
  ⟨[], lexemes, [], (List.append_nil _).symm, .here read⟩

/-- **Every part of a tree has its lexemes**, one behind the other among those of the whole. -/
theorem exists_of_reads {lexemes : List (Lexeme × Nat)} {expression : Expression}
    (read : Reads rank lexemes expression) {context : Context}
    (whole : context.plug sub = expression) :
    ∃ front part back, lexemes = front ++ (part ++ back) ∧
      Surrounds part sub rank front back context := by
  induction read generalizing context with
  | number value position =>
      cases context with
      | hole =>
          subst whole
          exact exists_whole (.number value position)
      | signed | inLeft | inRight | group => cases whole
  | signed lexeme polarity position shown read ih =>
      cases context with
      | hole =>
          subst whole
          exact exists_whole (.signed lexeme polarity position shown read)
      | signed other place inner =>
          obtain ⟨rfl, rfl, filled⟩ := Expression.signed.inj whole
          obtain ⟨front, part, back, rfl, surrounds⟩ := ih filled
          exact ⟨_, part, back, rfl, .signed lexeme _ _ shown surrounds⟩
      | inLeft | inRight | group => cases whole
  | group opening closing read ih =>
      cases context with
      | hole =>
          subst whole
          exact exists_whole (.group opening closing read)
      | group left inner right =>
          obtain ⟨rfl, filled, rfl⟩ := Expression.group.inj whole
          obtain ⟨front, part, back, rfl, surrounds⟩ := ih filled
          exact ⟨_, part, _, by simp, .group _ _ surrounds⟩
      | signed | inLeft | inRight => cases whole
  | ofUnit read ih =>
      obtain ⟨front, part, back, rfl, surrounds⟩ := ih whole
      exact ⟨front, part, back, rfl, .ofUnit surrounds⟩
  | multiply lexeme op position shown ranked readLeft readRight ihLeft ihRight =>
      cases context with
      | hole =>
          subst whole
          exact exists_whole (.multiply lexeme op position shown ranked readLeft readRight)
      | inLeft other place inner right =>
          obtain ⟨rfl, rfl, filled, rfl⟩ := Expression.binary.inj whole
          obtain ⟨front, part, back, rfl, surrounds⟩ := ihLeft filled
          exact ⟨front, part, _, by simp,
            .multiplyLeft lexeme _ _ shown ranked surrounds readRight⟩
      | inRight other place left inner =>
          obtain ⟨rfl, rfl, rfl, filled⟩ := Expression.binary.inj whole
          obtain ⟨front, part, back, rfl, surrounds⟩ := ihRight filled
          exact ⟨_, part, back, by simp,
            .multiplyRight lexeme _ _ shown ranked readLeft surrounds⟩
      | signed | group => cases whole
  | juxtapose closing first position starts readLeft readRight ihLeft ihRight =>
      cases context with
      | hole =>
          subst whole
          exact exists_whole (.juxtapose closing first position starts readLeft readRight)
      | inLeft other place inner right =>
          obtain ⟨rfl, rfl, filled, rfl⟩ := Expression.binary.inj whole
          obtain ⟨front, part, back, closed, surrounds⟩ := ihLeft filled
          refine ⟨front, part, _, ?_,
            .juxtaposeLeft closing first _ starts closed.symm surrounds readRight⟩
          rw [List.append_cons, closed, List.append_assoc, List.append_assoc]
      | inRight other place left inner =>
          obtain ⟨rfl, rfl, rfl, filled⟩ := Expression.binary.inj whole
          obtain ⟨front, part, back, begins, surrounds⟩ := ihRight filled
          refine ⟨_, part, back, ?_,
            .juxtaposeRight closing first _ starts readLeft begins.symm surrounds⟩
          rw [begins, List.append_assoc]
          rfl
      | signed | group => cases whole
  | ofProduct read ih =>
      obtain ⟨front, part, back, rfl, surrounds⟩ := ih whole
      exact ⟨front, part, back, rfl, .ofProduct surrounds⟩
  | add lexeme op position shown ranked readLeft readRight ihLeft ihRight =>
      cases context with
      | hole =>
          subst whole
          exact exists_whole (.add lexeme op position shown ranked readLeft readRight)
      | inLeft other place inner right =>
          obtain ⟨rfl, rfl, filled, rfl⟩ := Expression.binary.inj whole
          obtain ⟨front, part, back, rfl, surrounds⟩ := ihLeft filled
          exact ⟨front, part, _, by simp, .addLeft lexeme _ _ shown ranked surrounds readRight⟩
      | inRight other place left inner =>
          obtain ⟨rfl, rfl, rfl, filled⟩ := Expression.binary.inj whole
          obtain ⟨front, part, back, rfl, surrounds⟩ := ihRight filled
          exact ⟨_, part, back, by simp, .addRight lexeme _ _ shown ranked readLeft surrounds⟩
      | signed | group => cases whole

/-- What is first among the lexemes is first before the part, or there is nothing before the
part and it is first in it. -/
theorem first_cases (surrounds : Surrounds part sub rank front back context)
    {first : Lexeme × Nat} {others : List (Lexeme × Nat)}
    (begins : front ++ (part ++ back) = first :: others) :
    (∃ later, front = first :: later) ∨ (front = [] ∧ ∃ later, part = first :: later) := by
  obtain ⟨rfl, inPart⟩ | ⟨later, rfl, -⟩ := List.append_eq_cons_iff.mp begins
  · obtain ⟨rfl, -⟩ | ⟨later, rfl, -⟩ := List.append_eq_cons_iff.mp inPart
    · exact absurd rfl surrounds.part_ne_nil
    · exact .inr ⟨rfl, later, rfl⟩
  · exact .inl ⟨later, rfl⟩

/-! ## Places around a part -/

/-- The tokens before a part stand where the lexemes before it do, or where its first lexeme
does: a star may be understood there. -/
theorem forall_before {P : Nat → Prop} (surrounds : Surrounds part sub rank front back context)
    (holds : ∀ placed ∈ front, P placed.2) (first : ∀ placed ∈ part.head?, P placed.2) :
    ∀ placed ∈ context.before, P placed.2 := by
  induction surrounds with
  | here read => exact List.forall_mem_nil _
  | signed lexeme polarity position shown inner ih | group opening closing inner ih =>
      obtain ⟨here, inside⟩ := List.forall_mem_cons.mp holds
      exact List.forall_mem_cons.mpr ⟨here, ih inside⟩
  | ofUnit inner ih | ofProduct inner ih
  | multiplyLeft lexeme op position shown ranked inner readRight ih
  | juxtaposeLeft closing lexeme position starts closed inner readRight ih
  | addLeft lexeme op position shown ranked inner readRight ih => exact ih holds
  | multiplyRight lexeme op position shown ranked readLeft inner ih
  | addRight lexeme op position shown ranked readLeft inner ih =>
      obtain ⟨left, behind⟩ := List.forall_mem_append.mp holds
      obtain ⟨here, inside⟩ := List.forall_mem_cons.mp behind
      exact List.forall_mem_append.mpr
        ⟨readLeft.forall_token left, List.forall_mem_cons.mpr ⟨here, ih inside⟩⟩
  | juxtaposeRight closing lexeme position starts readLeft begins inner ih =>
      rw [List.append_cons] at holds
      obtain ⟨left, inside⟩ := List.forall_mem_append.mp holds
      refine List.forall_mem_append.mpr
        ⟨readLeft.forall_token left, List.forall_mem_cons.mpr ⟨?_, ih inside⟩⟩
      obtain ⟨others, rfl⟩ | ⟨rfl, others, rfl⟩ := inner.first_cases begins
      · exact inside _ List.mem_cons_self
      · exact first _ rfl

/-- The tokens behind a part stand where the lexemes behind it do. -/
theorem forall_behind {P : Nat → Prop} (surrounds : Surrounds part sub rank front back context)
    (holds : ∀ placed ∈ back, P placed.2) : ∀ placed ∈ context.behind, P placed.2 := by
  induction surrounds with
  | here read => exact List.forall_mem_nil _
  | signed lexeme polarity position shown inner ih | ofUnit inner ih | ofProduct inner ih
  | multiplyRight lexeme op position shown ranked readLeft inner ih
  | juxtaposeRight closing lexeme position starts readLeft begins inner ih
  | addRight lexeme op position shown ranked readLeft inner ih => exact ih holds
  | group opening closing inner ih =>
      obtain ⟨inside, there⟩ := List.forall_mem_append.mp holds
      refine List.forall_mem_append.mpr ⟨ih inside, ?_⟩
      exact List.forall_mem_singleton.mpr (there _ List.mem_cons_self)
  | multiplyLeft lexeme op position shown ranked inner readRight ih
  | addLeft lexeme op position shown ranked inner readRight ih =>
      obtain ⟨inside, behind⟩ := List.forall_mem_append.mp holds
      obtain ⟨here, right⟩ := List.forall_mem_cons.mp behind
      exact List.forall_mem_append.mpr
        ⟨ih inside, List.forall_mem_cons.mpr ⟨here, readRight.forall_token right⟩⟩
  | juxtaposeLeft closing first position starts closed inner readRight ih =>
      obtain ⟨inside, right⟩ := List.forall_mem_append.mp holds
      exact List.forall_mem_append.mpr ⟨ih inside,
        List.forall_mem_cons.mpr ⟨right _ List.mem_cons_self, readRight.forall_token right⟩⟩

end Surrounds

end InfixArithmetic
