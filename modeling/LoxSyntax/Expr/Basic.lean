import LoxSyntax.Expr.Operator
import LoxSyntax.Value

/-! # Expressions
Expression trees and their canonical text, in which every operator stands before its operands and
every composite node stands in parentheses. -/

namespace LoxSyntax

/-- An **expression**. -/
inductive Expr where
  /-- A literal. -/
  | literal (v : Value)
  /-- An expression in parentheses. -/
  | group (inner : Expr)
  /-- An operator before its operand. -/
  | unary (op : UnaryOp) (operand : Expr)
  /-- An operator between its operands. -/
  | binary (left : Expr) (op : BinaryOp) (right : Expr)
deriving DecidableEq, Repr

namespace Expr

/-- **The canonical text.** -/
def text : Expr → String
  | literal v => v.text
  | group inner => "(group " ++ inner.text ++ ")"
  | unary op operand => "(" ++ op.symbol ++ " " ++ operand.text ++ ")"
  | binary left op right => "(" ++ op.symbol ++ " " ++ left.text ++ " " ++ right.text ++ ")"

/-- **Equality of expressions**: the same tree with equal values at the leaves. -/
def equal : Expr → Expr → Bool
  | literal v, literal w => v.equal w
  | group x, group y => equal x y
  | unary op x, unary op' y => op == op' && equal x y
  | binary x op y, binary x' op' y' => op == op' && equal x x' && equal y y'
  | _, _ => false

end Expr

end LoxSyntax
