import LoxSyntax.Expr.Shape

/-! # The grammar of expressions
The grammar has one level for each precedence of binary operators, a level for unary operators above
them, and a level for literals and groups above that. Each binary level is left-recursive, so its
operators associate to the left. `derives_iff` says that the grammar derives exactly the spellings
of the trees whose precedences are in order. -/

namespace LoxSyntax.Expr

/-- The level of unary operators, above the four levels of binary ones. -/
def unaryLevel : Nat := 5

/-- The level of literals and groups, above all others. -/
def primaryLevel : Nat := 6

/-- **The grammar**: the tokens that a level derives, and the tree that the derivation builds. The
level of a binary operator is its precedence, and a whole expression is of level one. -/
inductive Derives : Nat → List Token → Expr → Prop where
  /-- What a level derives is derived by the level below it. -/
  | tighter {level : Nat} {ts : List Token} {e : Expr} (derives : Derives (level + 1) ts e) :
    Derives level ts e
  /-- An operator between what its own level derives and what the level above it derives. -/
  | binary {left right : Expr} {op : BinaryOp} {ls rs : List Token} {t : Token}
    (derivesLeft : Derives op.precedence ls left) (kind : t.kind = op.kind)
    (derivesRight : Derives (op.precedence + 1) rs right) :
    Derives op.precedence (ls ++ t :: rs) (.binary left op right)
  /-- An operator before what the unary level derives. -/
  | unary {op : UnaryOp} {operand : Expr} {ts : List Token} {t : Token} (kind : t.kind = op.kind)
    (derives : Derives unaryLevel ts operand) : Derives unaryLevel (t :: ts) (.unary op operand)
  /-- A literal token. -/
  | literal {t : Token} (kind : t.kind.opening? = some .literal) :
    Derives primaryLevel [t] (.literal (t.literal.getD .nil))
  /-- Parentheses around a whole expression. -/
  | group {inner : Expr} {ts : List Token} {opened closed : Token}
    (opens : opened.kind = .leftParen) (derives : Derives 1 ts inner)
    (closes : closed.kind = .rightParen) :
    Derives primaryLevel (opened :: (ts ++ [closed])) (.group inner)

/-- What a level derives is derived by every level below it. -/
theorem Derives.of_le {level above : Nat} {ts : List Token} {e : Expr} (le : level ≤ above)
    (derives : Derives above ts e) : Derives level ts e := by
  induction le with
  | refl => exact derives
  | step le ih => exact ih derives.tighter

/-- Every binary operator is below the unary level. -/
theorem precedence_lt_unaryLevel (op : BinaryOp) : op.precedence < unaryLevel := by
  cases op <;> decide

/-- The level of an operator on top is one of the binary levels. -/
theorem level_of_top? {e : Expr} {q : Nat} (top : e.top? = some q) : 1 ≤ q ∧ q < unaryLevel := by
  cases e with
  | binary left op right =>
      cases top
      exact ⟨op.precedence_pos, precedence_lt_unaryLevel op⟩
  | _ => cases top

/-- What a level derives spells the tree that the derivation builds; the precedences of the tree are
in order, and a binary operator on top is of that level or above it. -/
theorem Derives.spells {level : Nat} {ts : List Token} {e : Expr} (derives : Derives level ts e) :
    e.Spells ts ∧ e.isShaped = true ∧ ∀ q ∈ e.top?, level ≤ q := by
  induction derives with
  | tighter derives ih =>
      obtain ⟨spells, shaped, top⟩ := ih
      exact ⟨spells, shaped, fun q onTop => Nat.le_of_succ_le (top q onTop)⟩
  | binary derivesLeft kind derivesRight ihl ihr =>
      obtain ⟨spellsLeft, shapedLeft, topLeft⟩ := ihl
      obtain ⟨spellsRight, shapedRight, topRight⟩ := ihr
      refine ⟨.binary spellsLeft kind spellsRight,
        isShaped_binary_iff.mpr ⟨topLeft, topRight, shapedLeft, shapedRight⟩, ?_⟩
      intro q onTop
      cases onTop
      exact Nat.le_refl _
  | @unary op operand ts t kind derives ih =>
      obtain ⟨spells, shaped, top⟩ := ih
      -- No binary operator is of the unary level.
      have none : operand.top? = none := by
        rw [Option.eq_none_iff_forall_ne_some]
        intro q onTop
        exact Nat.not_le_of_lt (level_of_top? onTop).2 (top q onTop)
      refine ⟨.unary kind spells, isShaped_unary_iff.mpr ⟨none, shaped⟩, ?_⟩
      intro q onTop
      cases onTop
  | literal kind =>
      refine ⟨.literal kind, rfl, ?_⟩
      intro q onTop
      cases onTop
  | group opens derives closes ih =>
      obtain ⟨spells, shaped, -⟩ := ih
      refine ⟨.group opens spells closes, shaped, ?_⟩
      intro q onTop
      cases onTop

/-- The spelling of a tree whose precedences are in order is derived by every level up to that of
its operator on top. -/
theorem Spells.derives {ts : List Token} {e : Expr} (spells : e.Spells ts)
    (shaped : e.isShaped = true) {level : Nat} (le : level ≤ unaryLevel)
    (top : ∀ q ∈ e.top?, level ≤ q) : Derives level ts e := by
  induction spells generalizing level with
  | literal kind => exact (Derives.literal kind).of_le (Nat.le_succ_of_le le)
  | group opens spells closes ih =>
      have inside := ih shaped (by decide) (fun q onTop => (level_of_top? onTop).1)
      exact (Derives.group opens inside closes).of_le (Nat.le_succ_of_le le)
  | unary kind spells ih =>
      obtain ⟨none, shaped⟩ := isShaped_unary_iff.mp shaped
      have inside := ih shaped (Nat.le_refl _) (by rw [none]; simp)
      exact (Derives.unary kind inside).of_le le
  | @binary left right op ls rs t spellsLeft kind spellsRight ihl ihr =>
      obtain ⟨leftTop, rightTop, shapedLeft, shapedRight⟩ := isShaped_binary_iff.mp shaped
      have lt := precedence_lt_unaryLevel op
      have derivesLeft := ihl shapedLeft (Nat.le_of_lt lt) leftTop
      have derivesRight := ihr shapedRight lt rightTop
      exact (Derives.binary derivesLeft kind derivesRight).of_le (top _ rfl)

/-- **The grammar derives exactly the spellings of the trees whose precedences are in order.** -/
theorem derives_iff {ts : List Token} {e : Expr} :
    Derives 1 ts e ↔ e.Spells ts ∧ e.isShaped = true := by
  constructor
  · intro derives
    obtain ⟨spells, shaped, -⟩ := derives.spells
    exact ⟨spells, shaped⟩
  · rintro ⟨spells, shaped⟩
    exact spells.derives shaped (by decide) (fun q onTop => (level_of_top? onTop).1)

end LoxSyntax.Expr
