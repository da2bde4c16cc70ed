import LoxSyntax.Expr.Basic
import LoxSyntax.Token.Basic

/-! # The shape of expressions
What can be said of an expression without reading it from anywhere: how high its tree is, how many
levels it takes to read it, whether its precedences let it stand with no more parentheses than it
has, and which tokens spell it. -/

namespace LoxSyntax.Expr

/-! ## Measures -/

/-- The **height** of a tree: every node but a literal is one level above its highest child. -/
def height : Expr → Nat
  | literal _ => 0
  | group inner => inner.height + 1
  | unary _ operand => operand.height + 1
  | binary left _ right => max left.height right.height + 1

/-- The **spine** of a tree: how many binary nodes follow each other on the left, from the top. -/
def spine : Expr → Nat
  | binary left _ _ => left.spine + 1
  | _ => 0

/-- How many levels it **needs** to read a tree from left to right. The left side of a binary node
is read before the node takes its level; the right side is read while every binary node of the spine
has taken one. -/
def need : Expr → Nat
  | literal _ => 0
  | group inner => inner.need + 1
  | unary _ operand => operand.need + 1
  | binary left _ right => max left.need (left.spine + 1 + right.need)

/-- A tree needs a level for each node of its spine. -/
theorem spine_le_need (e : Expr) : e.spine ≤ e.need := by
  cases e <;> simp only [spine, need] <;> omega

/-- The spine is a path, so it is no longer than the tree is high. -/
theorem spine_le_height (e : Expr) : e.spine ≤ e.height := by
  induction e with
  | literal v => exact Nat.le_refl _
  | group inner ih => exact Nat.zero_le _
  | unary op operand ih => exact Nat.zero_le _
  | binary left op right ihl ihr => simp only [spine, height]; omega

/-! ## Precedence -/

/-- The precedence of the operator on top, if it is a binary one. -/
def top? : Expr → Option Nat
  | binary _ op _ => some op.precedence
  | _ => none

/-- Whether the **precedences** of a tree let it stand as it is: no binary node under a unary one,
none on the left of one that binds more tightly, and on the right only such as bind more tightly. -/
def isShaped : Expr → Bool
  | literal _ => true
  | group inner => inner.isShaped
  | unary _ operand => operand.top?.isNone && operand.isShaped
  | binary left op right =>
    left.top?.all (op.precedence ≤ ·) && right.top?.all (op.precedence < ·) &&
      left.isShaped && right.isShaped

/-- A tree without a binary operator on top has no spine. -/
theorem spine_eq_zero_of_top? {e : Expr} (top : e.top? = none) : e.spine = 0 := by
  cases e with
  | binary left op right => cases top
  | _ => rfl

/-- Under a unary operator the precedences ask for an operand without a binary one on top. -/
theorem isShaped_unary_iff {op : UnaryOp} {operand : Expr} :
    (unary op operand).isShaped = true ↔ operand.top? = none ∧ operand.isShaped = true := by
  simp only [isShaped, Bool.and_eq_true, Option.isNone_iff_eq_none]

/-- Beside a binary operator the precedences ask for a left side that binds at least as tightly and
a right side that binds more tightly. -/
theorem isShaped_binary_iff {left right : Expr} {op : BinaryOp} :
    (binary left op right).isShaped = true ↔
      (∀ q ∈ left.top?, op.precedence ≤ q) ∧ (∀ q ∈ right.top?, op.precedence < q) ∧
        left.isShaped = true ∧ right.isShaped = true := by
  simp only [isShaped, Bool.and_eq_true, Option.all_eq_true, decide_eq_true_eq, and_assoc,
    Option.mem_def]

/-! ## Spelling -/

/-- The token sequences that **spell** a tree, from left to right. A literal is spelled by one
token, whose value it is; a literal token without a value stands for the absent one. -/
inductive Spells : Expr → List Token → Prop where
  /-- A literal token. -/
  | literal {t : Token} (kind : t.kind.opening? = some .literal) :
    Spells (.literal (t.literal.getD .nil)) [t]
  /-- Parentheses around what is inside. -/
  | group {inner : Expr} {ts : List Token} {opened closed : Token}
    (opens : opened.kind = .leftParen) (spells : Spells inner ts)
    (closes : closed.kind = .rightParen) : Spells (.group inner) (opened :: (ts ++ [closed]))
  /-- An operator before its operand. -/
  | unary {op : UnaryOp} {operand : Expr} {ts : List Token} {t : Token}
    (kind : t.kind = op.kind) (spells : Spells operand ts) : Spells (.unary op operand) (t :: ts)
  /-- An operator between its operands. -/
  | binary {left right : Expr} {op : BinaryOp} {ls rs : List Token} {t : Token}
    (spellsLeft : Spells left ls) (kind : t.kind = op.kind) (spellsRight : Spells right rs) :
    Spells (.binary left op right) (ls ++ t :: rs)

/-- What spells a tree starts with a token that may stand where an operand is due. -/
theorem Spells.opening_head {e : Expr} {ts : List Token} (h : Spells e ts) :
    ∃ t rest, ts = t :: rest ∧ (t.kind.opening?).isSome := by
  induction h with
  | @literal t kind => exact ⟨t, [], rfl, by simp [kind]⟩
  | @group inner ts opened closed opens spells closes ih =>
    exact ⟨opened, ts ++ [closed], rfl, by simp [opens, Kind.opening?]⟩
  | @unary op operand ts t kind spells ih =>
    exact ⟨t, ts, rfl, by cases op <;> simp [kind, UnaryOp.kind, Kind.opening?, UnaryOp.ofKind?]⟩
  | @binary left right op ls rs t spellsLeft kind spellsRight ihl ihr =>
    obtain ⟨first, rest, rfl, opens⟩ := ihl
    exact ⟨first, rest ++ t :: rs, rfl, opens⟩

/-- A tree is less high than its spelling is long. -/
theorem Spells.height_lt_length {e : Expr} {ts : List Token} (h : Spells e ts) :
    e.height < ts.length := by
  induction h with
  | literal kind => exact Nat.zero_lt_one
  | group opens spells closes ih =>
    simp only [height, List.length_cons, List.length_append]
    omega
  | unary kind spells ih => exact Nat.succ_lt_succ ih
  | binary spellsLeft kind spellsRight ihl ihr =>
    simp only [height, List.length_cons, List.length_append]
    omega

/-! ## The plain spelling -/

/-- The token that writes a value, at the origin. -/
def valueToken (v : Value) : Token :=
  match v with
  | .nil => .fixed .nilWord .origin
  | .bool b => .fixed (if b then .trueWord else .falseWord) .origin
  | .number _ => ⟨.number, v.text, some v, .origin⟩
  | .string s => ⟨.string, "\"" ++ s ++ "\"", some v, .origin⟩

/-- **The plain spelling** of a tree, with every token at the origin. -/
def tokens : Expr → List Token
  | literal v => [valueToken v]
  | group inner => .fixed .leftParen .origin :: (inner.tokens ++ [.fixed .rightParen .origin])
  | unary op operand => .fixed op.kind .origin :: operand.tokens
  | binary left op right => left.tokens ++ .fixed op.kind .origin :: right.tokens

/-- The token that writes a value is a literal one. -/
theorem opening?_valueToken (v : Value) : (valueToken v).kind.opening? = some .literal := by
  cases v with
  | bool b => cases b <;> rfl
  | _ => rfl

/-- The token that writes a value carries it. -/
theorem literal_valueToken (v : Value) : (valueToken v).literal = some v := by
  cases v with
  | bool b => cases b <;> rfl
  | _ => rfl

/-- **Every tree has a spelling.** -/
theorem spells_tokens (e : Expr) : e.Spells e.tokens := by
  induction e with
  | literal v =>
      have spells := Spells.literal (opening?_valueToken v)
      rw [literal_valueToken] at spells
      exact spells
  | group inner ih => exact .group rfl ih rfl
  | unary op operand ih => exact .unary rfl ih
  | binary left op right ihl ihr => exact .binary ihl rfl ihr

end LoxSyntax.Expr
