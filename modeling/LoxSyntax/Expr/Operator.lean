import LoxSyntax.Token.Kind

/-! # Operators
The operators of expressions, the kinds of token that write them, and how tightly the binary ones
bind. -/

namespace LoxSyntax

/-- A **unary operator**. -/
inductive UnaryOp where
  | negate | not
deriving DecidableEq, Repr

namespace UnaryOp

/-- The kind of token that writes the operator. -/
def kind : UnaryOp → Kind
  | negate => .minus
  | not => .bang

/-- The symbol of the operator. -/
def symbol (op : UnaryOp) : String := op.kind.text

/-- The operator that a kind of token writes before an operand. -/
def ofKind? : Kind → Option UnaryOp
  | .minus => some negate
  | .bang => some not
  | _ => none

end UnaryOp

/-- A **binary operator**. -/
inductive BinaryOp where
  | add | subtract | multiply | divide
  | equal | notEqual | less | lessEqual | greater | greaterEqual
deriving DecidableEq, Repr

namespace BinaryOp

/-- The kind of token that writes the operator. -/
def kind : BinaryOp → Kind
  | add => .plus
  | subtract => .minus
  | multiply => .star
  | divide => .slash
  | equal => .equalEqual
  | notEqual => .bangEqual
  | less => .less
  | lessEqual => .lessEqual
  | greater => .greater
  | greaterEqual => .greaterEqual

/-- The symbol of the operator. -/
def symbol (op : BinaryOp) : String := op.kind.text

/-- **Precedence**: an operator of a greater number binds more tightly. -/
def precedence : BinaryOp → Nat
  | equal | notEqual => 1
  | less | lessEqual | greater | greaterEqual => 2
  | add | subtract => 3
  | multiply | divide => 4

/-- The operator that a kind of token writes between operands. -/
def ofKind? : Kind → Option BinaryOp
  | .plus => some add
  | .minus => some subtract
  | .star => some multiply
  | .slash => some divide
  | .equalEqual => some equal
  | .bangEqual => some notEqual
  | .less => some less
  | .lessEqual => some lessEqual
  | .greater => some greater
  | .greaterEqual => some greaterEqual
  | _ => none

theorem ofKind?_eq_some_iff {k : Kind} {op : BinaryOp} : ofKind? k = some op ↔ k = op.kind := by
  cases k <;> cases op <;> decide

theorem precedence_pos (op : BinaryOp) : 0 < op.precedence := by cases op <;> decide

end BinaryOp

/-- What a token **opens** where an operand is due. -/
inductive Opening where
  /-- It is a literal, an operand by itself. -/
  | literal
  /-- It opens a group. -/
  | group
  /-- It is an operator before another operand. -/
  | unary (op : UnaryOp)
deriving DecidableEq, Repr

/-- What a token of the kind opens where an operand is due, if it may stand there. -/
def Kind.opening? : Kind → Option Opening
  | .number | .string | .trueWord | .falseWord | .nilWord => some .literal
  | .leftParen => some .group
  | k => (UnaryOp.ofKind? k).map .unary

/-- Groups are opened by one kind of token. -/
theorem Kind.opening?_eq_group_iff {k : Kind} : k.opening? = some .group ↔ k = .leftParen := by
  cases k <;> decide

/-- A unary operator is opened by the kind of token that writes it. -/
theorem Kind.opening?_eq_unary_iff {k : Kind} {op : UnaryOp} :
    k.opening? = some (.unary op) ↔ k = op.kind := by
  cases k <;> cases op <;> decide

/-- The precedence of the binary operator that a kind of token writes. -/
def Kind.precedence? (k : Kind) : Option Nat := (BinaryOp.ofKind? k).map (·.precedence)

end LoxSyntax
