import InfixArithmetic.Expression.Grammar
import InfixArithmetic.Proofs.Machine.Relocation

/-!
# Expressions around an expression

A context is an expression with a hole for another one in it, and `plug` fills the hole.  The
tokens of the whole are those of the context before the hole, those of what fills it, and those
of the context behind (`Expression.Context.tokens_plug`).

Places are labels of trees too.  A tree in other places has the same post-order, and the same
value or an error in the other place (`Expression.value_relocate`); only the places of binary
operators matter for that.  The context and what fills the hole may be moved apart, and what
fills the hole may be put between parentheses.  The post-order of the whole is the same then
(`Expression.Context.postorder_plug_relocate`), and so is the value
(`Expression.Context.value_plug_relocate`).
-/

namespace InfixArithmetic

set_option autoImplicit false

namespace Expression

variable (move : Nat → Nat)

/-! ## Trees in other places -/

/-- The same tree in other places. -/
def relocate : Expression → Expression
  | .number value position => .number value (move position)
  | .signed polarity position operand => .signed polarity (move position) operand.relocate
  | .binary op position left right => .binary op (move position) left.relocate right.relocate
  | .group opening body closing => .group (move opening) body.relocate (move closing)

theorem tokens_relocate (expression : Expression) :
    (expression.relocate move).tokens = expression.tokens.map (relocatePlaced move) := by
  induction expression with
  | number value position => rfl
  | signed polarity position operand ih =>
      rw [relocate, tokens, tokens, ih]
      rfl
  | binary op position left right ihLeft ihRight =>
      rw [relocate, tokens, tokens, ihLeft, ihRight, List.map_append]
      rfl
  | group opening body closing ih =>
      rw [relocate, tokens, tokens, ih, List.map_append]
      rfl

theorem postorder_relocate (expression : Expression) :
    (expression.relocate move).postorder = expression.postorder := by
  induction expression with
  | number value position => rfl
  | signed polarity position operand ih => rw [relocate, postorder, postorder, ih]
  | binary op position left right ihLeft ihRight =>
      rw [relocate, postorder, postorder, ihLeft, ihRight]
  | group opening body closing ih => exact ih

section Values

variable {move}

theorem value_signed_of_moved {operand moved : Expression} (polarity : Sign) (position place : Nat)
    (same : moved.value = operand.value.mapError (ArithmeticError.relocate move)) :
    (signed polarity place moved).value
      = (signed polarity position operand).value.mapError (ArithmeticError.relocate move) := by
  rw [value, value, same]
  cases operand.value <;> rfl

theorem value_binary_of_moved {left movedLeft right movedRight : Expression} (op : BinaryOp)
    (position : Nat)
    (sameLeft : movedLeft.value = left.value.mapError (ArithmeticError.relocate move))
    (sameRight : movedRight.value = right.value.mapError (ArithmeticError.relocate move)) :
    (binary op (move position) movedLeft movedRight).value
      = (binary op position left right).value.mapError (ArithmeticError.relocate move) := by
  rw [value, value, sameLeft, sameRight]
  cases left.value with
  | error error => rfl
  | ok leftValue =>
      cases right.value with
      | error error => rfl
      | ok rightValue => exact op.apply_relocate move leftValue rightValue position

/-- Whether two maps move the binary operators among placed tokens alike. -/
def MoveAlike (place move : Nat → Nat) (tokens : List (Token × Nat)) : Prop :=
  ∀ op position, (.binary op, position) ∈ tokens → place position = move position

namespace MoveAlike

variable {place : Nat → Nat} {tokens others : List (Token × Nat)}

theorem tail {placed : Token × Nat} (alike : MoveAlike place move (placed :: tokens)) :
    MoveAlike place move tokens :=
  fun op position member => alike op position (List.mem_cons_of_mem placed member)

theorem left (alike : MoveAlike place move (tokens ++ others)) : MoveAlike place move tokens :=
  fun op position member => alike op position (List.mem_append_left others member)

theorem right (alike : MoveAlike place move (tokens ++ others)) : MoveAlike place move others :=
  fun op position member => alike op position (List.mem_append_right tokens member)

end MoveAlike

/-- **A tree in other places has the same value**, or the same error in the other place. -/
theorem value_relocate {place : Nat → Nat} {expression : Expression}
    (alike : MoveAlike place move expression.tokens) :
    (expression.relocate place).value
      = expression.value.mapError (ArithmeticError.relocate move) := by
  induction expression with
  | number value position => rfl
  | signed polarity position operand ih =>
      exact value_signed_of_moved polarity position _ (ih alike.tail)
  | binary op position left right ihLeft ihRight =>
      have sameLeft := ihLeft alike.left
      have sameRight := ihRight alike.right.tail
      have moved : place position = move position :=
        alike op position (List.mem_append_right _ List.mem_cons_self)
      rw [relocate, moved]
      exact value_binary_of_moved op position sameLeft sameRight
  | group opening body closing ih =>
      exact ih alike.left.tail

end Values

/-! ## Contexts -/

/-- An expression with a hole in it. -/
inductive Context where
  | hole
  | signed (polarity : Sign) (position : Nat) (inner : Context)
  /-- The hole is in the left operand. -/
  | inLeft (op : BinaryOp) (position : Nat) (inner : Context) (right : Expression)
  /-- The hole is in the right operand. -/
  | inRight (op : BinaryOp) (position : Nat) (left : Expression) (inner : Context)
  | group (opening : Nat) (inner : Context) (closing : Nat)

namespace Context

/-- Fills the hole. -/
def plug : Context → Expression → Expression
  | .hole, filling => filling
  | .signed polarity position inner, filling => .signed polarity position (inner.plug filling)
  | .inLeft op position inner right, filling => .binary op position (inner.plug filling) right
  | .inRight op position left inner, filling => .binary op position left (inner.plug filling)
  | .group opening inner closing, filling => .group opening (inner.plug filling) closing

/-- The tokens before the hole. -/
def before : Context → List (Token × Nat)
  | .hole => []
  | .signed polarity position inner => (.sign polarity, position) :: inner.before
  | .inLeft _ _ inner _ => inner.before
  | .inRight op position left inner => left.tokens ++ (.binary op, position) :: inner.before
  | .group opening inner _ => (.opening, opening) :: inner.before

/-- The tokens behind the hole. -/
def behind : Context → List (Token × Nat)
  | .hole => []
  | .signed _ _ inner => inner.behind
  | .inLeft op position inner right => inner.behind ++ (.binary op, position) :: right.tokens
  | .inRight _ _ _ inner => inner.behind
  | .group _ inner closing => inner.behind ++ [(.closing, closing)]

/-- The same context in other places. -/
def relocate : Context → Context
  | .hole => .hole
  | .signed polarity position inner => .signed polarity (move position) inner.relocate
  | .inLeft op position inner right =>
      .inLeft op (move position) inner.relocate (right.relocate move)
  | .inRight op position left inner =>
      .inRight op (move position) (left.relocate move) inner.relocate
  | .group opening inner closing => .group (move opening) inner.relocate (move closing)

/-- **The tokens of the whole are those around the hole and those of what fills it.** -/
theorem tokens_plug (context : Context) (filling : Expression) :
    (context.plug filling).tokens = context.before ++ (filling.tokens ++ context.behind) := by
  induction context with
  | hole => exact (List.append_nil _).symm
  | signed polarity position inner ih =>
      rw [plug, tokens, ih]
      rfl
  | inLeft op position inner right ih =>
      rw [plug, tokens, ih, before, behind, List.append_assoc, List.append_assoc]
  | inRight op position left inner ih =>
      rw [plug, tokens, ih, before, behind, List.append_assoc]
      rfl
  | group opening inner closing ih =>
      rw [plug, tokens, ih, before, behind]
      simp only [List.cons_append, List.append_assoc]

theorem before_relocate (context : Context) :
    (context.relocate move).before = context.before.map (relocatePlaced move) := by
  induction context with
  | hole => rfl
  | signed polarity position inner ih | group opening inner closing ih =>
      rw [relocate, before, before, ih]
      rfl
  | inLeft op position inner right ih => exact ih
  | inRight op position left inner ih =>
      rw [relocate, before, before, ih, tokens_relocate, List.map_append]
      rfl

theorem behind_relocate (context : Context) :
    (context.relocate move).behind = context.behind.map (relocatePlaced move) := by
  induction context with
  | hole => rfl
  | signed polarity position inner ih | inRight op position left inner ih => exact ih
  | inLeft op position inner right ih =>
      rw [relocate, behind, behind, ih, tokens_relocate, List.map_append]
      rfl
  | group opening inner closing ih =>
      rw [relocate, behind, behind, ih, List.map_append]
      rfl

/-- **The post-order of the whole is the same** with the same post-order in the hole, wherever
the context is. -/
theorem postorder_plug_relocate (context : Context) {filling other : Expression}
    (same : other.postorder = filling.postorder) :
    ((context.relocate move).plug other).postorder = (context.plug filling).postorder := by
  induction context with
  | hole => exact same
  | signed polarity position inner ih => rw [relocate, plug, plug, postorder, postorder, ih]
  | inLeft op position inner right ih =>
      rw [relocate, plug, plug, postorder, postorder, ih, postorder_relocate]
  | inRight op position left inner ih =>
      rw [relocate, plug, plug, postorder, postorder, ih, postorder_relocate]
  | group opening inner closing ih => exact ih

/-- **The value of the whole is the same** with the same value in the hole, up to places. -/
theorem value_plug_relocate {place : Nat → Nat} {context : Context} {filling other : Expression}
    (alikeBefore : MoveAlike place move context.before)
    (alikeBehind : MoveAlike place move context.behind)
    (same : other.value = filling.value.mapError (ArithmeticError.relocate move)) :
    ((context.relocate place).plug other).value
      = (context.plug filling).value.mapError (ArithmeticError.relocate move) := by
  induction context with
  | hole => exact same
  | signed polarity position inner ih =>
      exact value_signed_of_moved polarity position _
        (ih alikeBefore.tail alikeBehind)
  | inLeft op position inner right ih =>
      have sameLeft := ih alikeBefore alikeBehind.left
      have sameRight := value_relocate alikeBehind.right.tail
      have moved : place position = move position :=
        alikeBehind op position (List.mem_append_right _ List.mem_cons_self)
      rw [relocate, moved]
      exact value_binary_of_moved op position sameLeft sameRight
  | inRight op position left inner ih =>
      have sameLeft := value_relocate alikeBefore.left
      have sameRight := ih alikeBefore.right.tail alikeBehind
      have moved : place position = move position :=
        alikeBefore op position (List.mem_append_right _ List.mem_cons_self)
      rw [relocate, moved]
      exact value_binary_of_moved op position sameLeft sameRight
  | group opening inner closing ih =>
      exact ih alikeBefore.tail alikeBehind.left

end Context

end Expression

end InfixArithmetic
