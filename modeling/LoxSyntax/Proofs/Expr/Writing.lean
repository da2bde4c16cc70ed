import LoxSyntax.Expr.Shape
import LoxSyntax.Proofs.Lexical.Spaced
import LoxSyntax.Proofs.Text.Decoding

/-! # Written expressions
An expression is written by lexemes, from left to right. Numbers have many texts, and everything
else has one. A row of lexemes that writes a tree, with blanks between them, is scanned to tokens
that spell the tree (`Expr.Writes.scan_eq`).

1. *Lexemes of a tree*.
2. *Blanks end them*.
3. *Tokens that spell the tree*: wherever they stand. -/

namespace LoxSyntax

/-! ## (1) Lexemes of a tree -/

/-- **The lexemes that write a value.** -/
inductive Value.Writes : Value → Lexeme → Prop where
  /-- The word for the absent value. -/
  | nil : Writes .nil (.fixed .nilWord)
  /-- The word for a truth value. -/
  | bool (b : Bool) : Writes (.bool b) (.fixed (if b then .trueWord else .falseWord))
  /-- A digit, and digits and points after it, that are read as the number. -/
  | number {x : Binary64} {b : UInt8} {run : List UInt8} (digit : Byte.isDigit b = true)
    (runs : ∀ c ∈ run, Byte.isNumeralPart c = true)
    (value : numeralValue (Utf8.decode (b :: run)).toList = x) :
    Writes (.number x) (.numeral (b :: run))
  /-- A text without quotes, in quotes. -/
  | string {s : String} (unquoted : '"' ∉ s.toList) : Writes (.string s) (.quoted (Utf8.encode s))

/-- **The lexemes that write a tree**, in order. -/
inductive Expr.Writes : Expr → List Lexeme → Prop where
  /-- A value. -/
  | literal {v : Value} {l : Lexeme} (writes : v.Writes l) : Writes (.literal v) [l]
  /-- Parentheses around what is inside. -/
  | group {inner : Expr} {ls : List Lexeme} (writes : Writes inner ls) :
    Writes (.group inner) (.fixed .leftParen :: (ls ++ [.fixed .rightParen]))
  /-- An operator before its operand. -/
  | unary {op : UnaryOp} {operand : Expr} {ls : List Lexeme} (writes : Writes operand ls) :
    Writes (.unary op operand) (.fixed op.kind :: ls)
  /-- An operator between its operands. -/
  | binary {left right : Expr} {op : BinaryOp} {ls rs : List Lexeme}
    (writesLeft : Writes left ls) (writesRight : Writes right rs) :
    Writes (.binary left op right) (ls ++ .fixed op.kind :: rs)

/-! ## (2) Blanks end them -/

/-- What writes a value is separable. -/
theorem Value.Writes.separable {v : Value} {l : Lexeme} (writes : v.Writes l) : l.Separable := by
  cases writes with
  | nil => exact Lexeme.separable_fixed rfl (by decide)
  | bool b => cases b <;> exact Lexeme.separable_fixed rfl (by decide)
  | number digit runs value => exact Lexeme.separable_numeral digit runs
  | string unquoted => exact Lexeme.separable_quoted (Utf8.quote_not_mem_encode unquoted)

namespace Expr.Writes

/-- **What writes a tree is separable**, lexeme by lexeme. -/
theorem separable {e : Expr} {ls : List Lexeme} (writes : e.Writes ls) :
    ∀ l ∈ ls, l.Separable := by
  induction writes with
  | literal writes =>
      intro l member
      cases List.mem_singleton.mp member
      exact writes.separable
  | group writes ih =>
      intro l member
      simp only [List.mem_cons, List.mem_append, List.not_mem_nil, or_false] at member
      rcases member with rfl | inside | rfl
      · exact Lexeme.separable_fixed rfl (by decide)
      · exact ih l inside
      · exact Lexeme.separable_fixed rfl (by decide)
  | @unary op operand ls writes ih =>
      have first : (Lexeme.fixed op.kind).Separable := by
        cases op <;> exact Lexeme.separable_fixed rfl (by decide)
      exact List.forall_mem_cons.mpr ⟨first, ih⟩
  | @binary left right op ls rs writesLeft writesRight ihl ihr =>
      have middle : (Lexeme.fixed op.kind).Separable := by
        cases op <;> exact Lexeme.separable_fixed rfl (by decide)
      exact List.forall_mem_append.mpr ⟨ihl, List.forall_mem_cons.mpr ⟨middle, ihr⟩⟩

end Expr.Writes

/-! ## (3) Tokens that spell the tree -/

/-- The token of what writes a value is a literal one, and carries the value. -/
theorem Value.Writes.exists_token {v : Value} {l : Lexeme} (writes : v.Writes l) :
    ∃ t, l.item .origin = .token t ∧ t.kind.opening? = some .literal ∧ t.literal = some v := by
  cases writes with
  | nil => exact ⟨_, rfl, rfl, rfl⟩
  | bool b => cases b <;> exact ⟨_, rfl, rfl, rfl⟩
  | number digit runs value =>
      subst value
      exact ⟨_, rfl, rfl, rfl⟩
  | @string s unquoted =>
      refine ⟨_, rfl, rfl, ?_⟩
      rw [Utf8.decode_encode]

namespace Expr.Writes

/-- The tokens of the lexemes that write a tree spell it. -/
theorem exists_spells {e : Expr} {ls : List Lexeme} (writes : e.Writes ls) :
    ∃ ts, ls.map (·.item .origin) = ts.map .token ∧ e.Spells ts := by
  induction writes with
  | @literal v l writes =>
      obtain ⟨t, item, opens, value⟩ := writes.exists_token
      have spells : (Expr.literal (t.literal.getD .nil)).Spells [t] := .literal opens
      rw [value] at spells
      exact ⟨[t], congrArg (fun item => [item]) item, spells⟩
  | group writes ih =>
      obtain ⟨ts, same, spells⟩ := ih
      refine ⟨.fixed .leftParen .origin :: (ts ++ [.fixed .rightParen .origin]), ?_,
        .group rfl spells rfl⟩
      simp only [List.map_cons, List.map_append, List.map_nil, same]
      rfl
  | @unary op operand ls writes ih =>
      obtain ⟨ts, same, spells⟩ := ih
      refine ⟨.fixed op.kind .origin :: ts, ?_, .unary rfl spells⟩
      simp only [List.map_cons, same]
      rfl
  | @binary left right op ls rs writesLeft writesRight ihl ihr =>
      obtain ⟨ls', sameLeft, spellsLeft⟩ := ihl
      obtain ⟨rs', sameRight, spellsRight⟩ := ihr
      refine ⟨ls' ++ .fixed op.kind .origin :: rs', ?_, .binary spellsLeft rfl spellsRight⟩
      simp only [List.map_cons, List.map_append, sameLeft, sameRight]
      rfl

end Expr.Writes

/-- A token without its place. -/
def Token.unplaced (t : Token) : Token := { t with span := .origin }

/-- Items that are tokens without their places are tokens. -/
theorem exists_tokens_of_unplaced {items : List Item} {ts : List Token}
    (same : items.map Item.unplaced = ts.map .token) :
    ∃ us : List Token, items = us.map .token ∧ us.map Token.unplaced = ts := by
  induction items generalizing ts with
  | nil =>
      cases List.map_eq_nil_iff.mp same.symm
      exact ⟨[], rfl, rfl⟩
  | cons item items ih =>
      cases ts with
      | nil => cases same
      | cons t ts =>
          obtain ⟨first, others⟩ := List.cons.inj same
          obtain ⟨us, rfl, rfl⟩ := ih others
          cases item with
          | fault d => cases first
          | token u =>
              cases first
              exact ⟨u :: us, rfl, rfl⟩

/-- **Tokens spell a tree wherever they stand.** -/
theorem Expr.Spells.of_unplaced {e : Expr} {ts : List Token}
    (spells : e.Spells (ts.map Token.unplaced)) : e.Spells ts := by
  -- The induction is on the tokens without places; each case finds its own tokens in `ts`.
  generalize same : ts.map Token.unplaced = us at spells
  induction spells generalizing ts with
  | literal kind =>
      obtain ⟨t, ts, rfl, rfl, none⟩ := List.map_eq_cons_iff.mp same
      cases List.map_eq_nil_iff.mp none
      have spells : (Expr.literal (t.literal.getD .nil)).Spells [t] := .literal kind
      exact spells
  | group opens spells closes ih =>
      obtain ⟨opened, ts, rfl, rfl, others⟩ := List.map_eq_cons_iff.mp same
      obtain ⟨ts, last, rfl, inside, closing⟩ := List.map_eq_append_iff.mp others
      obtain ⟨closed, more, rfl, rfl, none⟩ := List.map_eq_cons_iff.mp closing
      cases List.map_eq_nil_iff.mp none
      exact .group opens (ih inside) closes
  | unary kind spells ih =>
      obtain ⟨t, ts, rfl, rfl, operand⟩ := List.map_eq_cons_iff.mp same
      exact .unary kind (ih operand)
  | binary spellsLeft kind spellsRight ihl ihr =>
      obtain ⟨ls, rs, rfl, left, others⟩ := List.map_eq_append_iff.mp same
      obtain ⟨t, rs, rfl, rfl, right⟩ := List.map_eq_cons_iff.mp others
      exact .binary (ihl left) kind (ihr right)

/-- **A written tree is scanned to tokens that spell it**, and the end of input. -/
theorem Expr.Writes.scan_eq {e : Expr} {ls : List Lexeme} {text : List UInt8}
    (writes : e.Writes ls) (spaced : Spaced ls text) :
    ∃ ts last, scan text = ts.map .token ++ [.token last] ∧ e.Spells ts ∧
      last.kind = .endOfInput := by
  obtain ⟨us, items, spells⟩ := writes.exists_spells
  have same : (scan text).map Item.unplaced = (us ++ [Token.endOfInput .origin]).map .token := by
    rw [List.map_append, ← items]
    exact spaced.contents_eq writes.separable
  -- No item of the scan is a fault, so its places may be put back into the tokens.
  obtain ⟨all, tokens, unplaced⟩ := exists_tokens_of_unplaced same
  obtain ⟨ts, others, rfl, rfl, ends⟩ := List.map_eq_append_iff.mp unplaced
  obtain ⟨last, more, rfl, ended, none⟩ := List.map_eq_cons_iff.mp ends
  cases List.map_eq_nil_iff.mp none
  refine ⟨ts, last, by rw [tokens, List.map_append]; rfl, .of_unplaced spells, ?_⟩
  exact congrArg Token.kind ended

end LoxSyntax
