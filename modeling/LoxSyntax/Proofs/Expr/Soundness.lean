import Mathlib.Control.Monad.Basic
import LoxSyntax.Expr.Shape
import LoxSyntax.Proofs.Expr.Calls

/-! # What is read is what was spelled
A reader that succeeds on a finite list of items has taken exactly a spelling of the tree it gives,
and the precedences of that tree are in order. The invariant of a chain is `Fits`: no operator ahead
binds more tightly than the one on top of the left side, because the right side of that one would
have taken it. Over the calls of a parser the spellings follow each other without gaps. -/

namespace LoxSyntax

open Reading

variable {σ : Type} [Supply σ]

/-! ## The invariant of a chain -/

/-- **A left side fits** before the items ahead, in a chain of the operators from `least` on. -/
structure Reading.Fits (least : Nat) (left : Expr) (items : List Item) : Prop where
  /-- The precedences inside are in order. -/
  shaped : left.isShaped = true
  /-- An operator on top is one of those the chain takes. -/
  least_le_top : ∀ q ∈ left.top?, least ≤ q
  /-- No operator ahead binds more tightly than the one on top. -/
  stops : ∀ q ∈ left.top?, nextOperator (q + 1) items = none

namespace Reading

/-- An operand fits everywhere. -/
theorem Fits.of_operand {least : Nat} {e : Expr} {items : List Item} (shaped : e.isShaped = true)
    (top : e.top? = none) : Fits least e items := by
  refine ⟨shaped, ?_, ?_⟩
  · intro q onTop
    rw [top] at onTop
    cases onTop
  · intro q onTop
    rw [top] at onTop
    cases onTop

/-- The operator ahead binds no more tightly than the one on top of a left side that fits: otherwise
that one would not have stopped. -/
theorem Fits.precedence_le {least : Nat} {left : Expr} {op : BinaryOp} {items : List Item}
    (fits : Fits least left items) (next : nextOperator least items = some op) :
    ∀ q ∈ left.top?, op.precedence ≤ q := by
  obtain ⟨t, following, rfl, kind, -⟩ := nextOperator_eq_some_iff.mp next
  intro q onTop
  apply Nat.le_of_not_lt
  intro tighter
  have found := nextOperator_eq_some_iff.mpr ⟨t, following, rfl, kind, tighter⟩
  rw [fits.stops q onTop] at found
  cases found

/-- **The step of a chain**: a left side that fits, the operator ahead, and a right side at whose
end no operator binds more tightly form a left side that fits. -/
theorem Fits.binary {least : Nat} {left right : Expr} {op : BinaryOp} {items rest : List Item}
    (fits : Fits least left items) (next : nextOperator least items = some op)
    (beside : Fits (op.precedence + 1) right rest)
    (ended : nextOperator (op.precedence + 1) rest = none) :
    Fits least (.binary left op right) rest := by
  obtain ⟨-, -, -, -, tight⟩ := nextOperator_eq_some_iff.mp next
  refine ⟨Expr.isShaped_binary_iff.mpr
    ⟨fits.precedence_le next, beside.least_le_top, fits.shaped, beside.shaped⟩, ?_, ?_⟩
  · intro q onTop
    cases onTop
    exact tight
  · intro q onTop
    cases onTop
    exact ended

/-! ## Readings -/

/-- **An operand was read soundly**: it took tokens that spell it, its precedences are in order, and
no binary operator is on top. -/
def SoundOperand (r : Reader σ) (e : Expr) (r' : Reader σ) : Prop :=
  ∀ items, r.ahead.Holds items → ∃ ts rest, items = ts.map .token ++ rest ∧ r'.ahead.Holds rest ∧
    e.Spells ts ∧ e.isShaped = true ∧ e.top? = none

/-- **A chain was read soundly**: if its left side fitted, it took tokens that spell the whole after
those of the left side, and it ended where no operator is tight enough. -/
def SoundChain (least : Nat) (left : Expr) (r : Reader σ) (e : Expr) (r' : Reader σ) : Prop :=
  ∀ items, r.ahead.Holds items → Fits least left items →
    ∃ ts rest, items = ts.map .token ++ rest ∧ r'.ahead.Holds rest ∧
      (∀ ls, left.Spells ls → e.Spells (ls ++ ts)) ∧ Fits least e rest ∧
      nextOperator least rest = none

/-- An operand and the chain after it are spelled together. -/
theorem SoundOperand.chain {least : Nat} {r r₁ r₂ : Reader σ} {first e : Expr}
    (operand : SoundOperand r first r₁) (chain : SoundChain least first r₁ e r₂)
    {items : List Item} (holds : r.ahead.Holds items) :
    ∃ ts rest, items = ts.map .token ++ rest ∧ r₂.ahead.Holds rest ∧ e.Spells ts ∧
      Fits least e rest ∧ nextOperator least rest = none := by
  obtain ⟨fs, rest₁, rfl, holds₁, spells₁, shaped, top⟩ := operand items holds
  obtain ⟨cs, rest₂, rfl, holds₂, spells₂, fits, ended⟩ :=
    chain rest₁ holds₁ (.of_operand shaped top)
  refine ⟨fs ++ cs, rest₂, ?_, holds₂, spells₂ fs spells₁, fits, ended⟩
  rw [List.map_append, List.append_assoc]

/-- A literal is spelled by its token. -/
theorem soundOperand_literal {r r' : Reader σ} {t : Token} (taken : advance r = .ok t r')
    (opens : t.kind.opening? = some .literal) :
    SoundOperand r (.literal (t.literal.getD .nil)) r' := by
  intro items holds
  have kind : t.kind ≠ .endOfInput := by
    intro same
    rw [same] at opens
    cases opens
  obtain ⟨rest, rfl, holds'⟩ := holds_of_advance holds taken kind
  exact ⟨[t], rest, rfl, holds', .literal opens, rfl, rfl⟩

/-- A group is spelled by what is inside it, between its parentheses. -/
theorem SoundOperand.group {r r₁ r₂ r₃ r' : Reader σ} {t : Token} {first inner e : Expr}
    (taken : advance r = .ok t r₁) (opens : t.kind.opening? = some .group)
    (operand : SoundOperand r₁ first r₂) (chain : SoundChain 0 first r₂ inner r₃)
    (closed : closeGroup inner r₃ = .ok e r') : SoundOperand r e r' := by
  intro items holds
  have kind : t.kind = .leftParen := Kind.opening?_eq_group_iff.mp opens
  obtain ⟨rest₁, rfl, holds₁⟩ := holds_of_advance holds taken (by rw [kind]; decide)
  -- The side inside begins at the parenthesis and ends before the one that closes.
  obtain ⟨ts, rest₂, rfl, holds₂, spells, fits, -⟩ := operand.chain chain holds₁
  obtain ⟨t', r₄, taken', kind', rfl, ahead⟩ := closeGroup_eq_ok closed
  obtain ⟨rest₃, rfl, holds₃⟩ := holds_of_advance holds₂ taken' (by rw [kind']; decide)
  refine ⟨t :: (ts ++ [t']), rest₃, ?_, ahead ▸ holds₃, .group kind spells kind', fits.shaped,
    rfl⟩
  rw [List.map_cons, List.map_append, List.cons_append, List.append_assoc]
  rfl

/-- An operator before an operand is spelled by its token and the operand. -/
theorem SoundOperand.unary {r r₁ r' : Reader σ} {t : Token} {op : UnaryOp} {inner : Expr}
    (taken : advance r = .ok t r₁) (opens : t.kind.opening? = some (.unary op))
    (operand : SoundOperand r₁ inner r') : SoundOperand r (.unary op inner) r' := by
  intro items holds
  have kind : t.kind = op.kind := Kind.opening?_eq_unary_iff.mp opens
  obtain ⟨rest₁, rfl, holds₁⟩ :=
    holds_of_advance holds taken (by rw [kind]; cases op <;> decide)
  obtain ⟨ts, rest₂, rfl, holds₂, spells, shaped, top⟩ := operand rest₁ holds₁
  exact ⟨t :: ts, rest₂, rfl, holds₂, .unary kind spells,
    Expr.isShaped_unary_iff.mpr ⟨top, shaped⟩, rfl⟩

/-- A chain that ends takes nothing. -/
theorem soundChain_done {least : Nat} {left : Expr} {r r' : Reader σ}
    (seen : peekOperator least r = .ok none r') : SoundChain least left r left r' := by
  intro items holds fits
  obtain ⟨r₁, seen₁, holds₁, -⟩ := peekOperator_eq holds least
  rw [seen] at seen₁
  obtain ⟨ended, rfl⟩ := EStateM.Result.ok.inj seen₁
  refine ⟨[], items, rfl, holds₁, ?_, fits, ended.symm⟩
  intro ls spells
  rw [List.append_nil]
  exact spells

/-- A chain that goes on takes the operator, its right side, and the rest of the chain. -/
theorem SoundChain.more {least : Nat} {left first right e : Expr} {op : BinaryOp} {t : Token}
    {r r₁ r₂ r₃ r₄ r' : Reader σ} (seen : peekOperator least r = .ok (some op) r₁)
    (taken : advance r₁ = .ok t r₂) (operand : SoundOperand r₂ first r₃)
    (beside : SoundChain (op.precedence + 1) first r₃ right r₄)
    (chain : SoundChain least (.binary left op right) r₄ e r') : SoundChain least left r e r' := by
  intro items holds fits
  obtain ⟨r₁', seen₁, holds₁, -⟩ := peekOperator_eq holds least
  rw [seen] at seen₁
  obtain ⟨next, rfl⟩ := EStateM.Result.ok.inj seen₁
  obtain ⟨t', rest₁, rfl, kind, -⟩ := nextOperator_eq_some_iff.mp next.symm
  -- The token that was looked at is the one taken.
  obtain ⟨r₂', taken₁, holds₂, -⟩ := advance_token holds₁
  rw [taken] at taken₁
  obtain ⟨rfl, rfl⟩ := EStateM.Result.ok.inj taken₁
  -- The right side stops where nothing binds more tightly, so the node fits before the rest.
  obtain ⟨rs, rest₂, rfl, holds₃, spellsRight, fitsRight, ended⟩ := operand.chain beside holds₂
  obtain ⟨cs, rest₃, rfl, holds₄, spells, fits', stopped⟩ :=
    chain rest₂ holds₃ (fits.binary next.symm fitsRight ended)
  refine ⟨t :: rs ++ cs, rest₃, ?_, holds₄, ?_, fits', stopped⟩
  · rw [List.map_append, List.append_assoc]
    rfl
  · intro ls spellsLeft
    rw [← List.append_assoc]
    exact spells _ (.binary spellsLeft kind spellsRight)

/-- **Every reading that succeeds is sound.** -/
theorem sound_of_read (limit room : Nat) :
    (∀ {r : Reader σ} {e r'}, operand limit room r = .ok e r' → SoundOperand r e r') ∧
      ∀ {least left} {r : Reader σ} {e r'}, chain limit room least left r = .ok e r' →
        SoundChain least left r e r' :=
  success_induction (P := fun _ (r : Reader σ) e r' => SoundOperand r e r')
    (Q := fun _ least left r e r' => SoundChain least left r e r') soundOperand_literal
    SoundOperand.group SoundOperand.unary soundChain_done SoundChain.more limit room

/-- An expression that was read is spelled by the tokens taken, its precedences are in order, and no
binary operator follows it. -/
theorem spells_of_expression {limit room : Nat} {r r' : Reader σ} {e : Expr} {items : List Item}
    (holds : r.ahead.Holds items) (read : expression limit room r = .ok e r') :
    ∃ ts rest, items = ts.map .token ++ rest ∧ r'.ahead.Holds rest ∧ e.Spells ts ∧
      e.isShaped = true ∧ nextOperator 0 rest = none := by
  obtain ⟨first, r₁, started, went⟩ := bind_eq_ok_iff.mp read
  obtain ⟨operands, chains⟩ := sound_of_read (σ := σ) limit room
  obtain ⟨ts, rest, split, holds', spells, fits, ended⟩ :=
    (operands started).chain (chains went) holds
  exact ⟨ts, rest, split, holds', spells, fits.shaped, ended⟩

end Reading

/-! ## Calls -/

namespace Parser

/-- **A call that gives an expression** has taken a spelling of it from the items ahead. -/
theorem spells_of_next {p : Parser σ} {e : Expr} {items : List Item} (holds : p.ahead.Holds items)
    (given : p.next.given = some (.ok e)) :
    ∃ ts rest, items = ts.map .token ++ rest ∧ p.next.after.ahead.Holds rest ∧ e.Spells ts ∧
      e.isShaped = true ∧ nextOperator 0 rest = none := by
  obtain ⟨-, r, read, after⟩ := next_eq_ok given
  rw [after]
  exact spells_of_expression holds.peek read

/-- **Expressions and spellings of successive calls.** From any state of a parser, the calls give
first expressions and then something else. Each expression is spelled by the tokens that its call
took, and the spellings, one after the other, are the first of the items that were ahead. -/
theorem exists_readings {p : Parser σ} {items : List Item} (holds : p.ahead.Holds items)
    (calls : Nat) :
    ∃ (readings : List (Expr × List Token)) (others : List (Option (Except Diagnostic Expr))),
      p.results calls = readings.map (fun reading => some (.ok reading.1)) ++ others ∧
      (∀ e, some (.ok e) ∉ others) ∧
      (∀ reading ∈ readings, reading.1.Spells reading.2 ∧ reading.1.isShaped = true) ∧
      ∀ k ≤ readings.length, ∃ left,
        items = ((readings.take k).flatMap (·.2)).map .token ++ left ∧
          (p.afterCalls k).ahead.Holds left := by
  induction calls generalizing p items with
  | zero =>
      refine ⟨[], [], rfl, by simp, by simp, ?_⟩
      intro k le
      rw [Nat.le_zero.mp le]
      exact ⟨items, rfl, holds⟩
  | succ calls ih =>
      by_cases given : ∃ e, p.next.given = some (.ok e)
      · -- The first call gives an expression: its spelling comes before those of the later calls.
        obtain ⟨e, given⟩ := given
        obtain ⟨ts, rest, rfl, holds', spells, shaped, -⟩ := spells_of_next holds given
        obtain ⟨readings, others, results, none, each, prefixes⟩ := ih holds'
        refine ⟨(e, ts) :: readings, others, ?_, none, ?_, ?_⟩
        · rw [Parser.results, given, results]
          rfl
        · intro reading member
          cases member with
          | head => exact ⟨spells, shaped⟩
          | tail _ member => exact each reading member
        · intro k le
          cases k with
          | zero => exact ⟨_, rfl, holds⟩
          | succ k =>
              obtain ⟨left, split, ahead⟩ := prefixes k (Nat.le_of_succ_le_succ le)
              refine ⟨left, ?_, ahead⟩
              rw [split, List.take_succ_cons, List.flatMap_cons, List.map_append,
                List.append_assoc]
      · -- The first call gives no expression: nothing is read any more.
        have halted := halted_after_next (fun e same => given ⟨e, same⟩)
        refine ⟨[], p.results (calls + 1), rfl, ?_, by simp, ?_⟩
        · intro e member
          rw [Parser.results, results_of_halted halted] at member
          cases List.mem_cons.mp member with
          | inl same => exact given ⟨e, same.symm⟩
          | inr member => cases List.eq_of_mem_replicate member
        · intro k le
          rw [Nat.le_zero.mp le]
          exact ⟨items, rfl, holds⟩

/-- **Soundness of parsing.** Over a supply that gives any finite list of items, the calls of a
parser give first expressions and then something else. Each expression is spelled by exactly the
tokens its call took, none lost or taken twice, its precedences are in order, and the spellings
together are the first items of the list. -/
theorem results_spelled {supply : σ} {items : List Item} (gives : Supply.Gives supply items)
    (calls : Nat) :
    ∃ (readings : List (Expr × List Token)) (others : List (Option (Except Diagnostic Expr))),
      (ofSupply supply).results calls =
        readings.map (fun reading => some (.ok reading.1)) ++ others ∧
      (∀ e, some (.ok e) ∉ others) ∧
      (∀ reading ∈ readings, reading.1.Spells reading.2 ∧ reading.1.isShaped = true) ∧
      ∀ k ≤ readings.length, ∃ left,
        items = ((readings.take k).flatMap (·.2)).map .token ++ left ∧
          ((ofSupply supply).afterCalls k).ahead.Holds left :=
  exists_readings (Lookahead.holds_ofSupply gives) calls

/-- Results are expressions and then something else in only one way. -/
theorem leading_unique {es es' : List Expr}
    {others others' : List (Option (Except Diagnostic Expr))}
    (same : es.map (fun e => some (.ok e)) ++ others = es'.map (fun e => some (.ok e)) ++ others')
    (none : ∀ e, some (.ok e) ∉ others) (none' : ∀ e, some (.ok e) ∉ others') :
    es = es' ∧ others = others' := by
  induction es generalizing es' with
  | nil =>
      cases es' with
      | nil => exact ⟨rfl, same⟩
      | cons e es' =>
          subst same
          exact absurd List.mem_cons_self (none e)
  | cons e es ih =>
      cases es' with
      | nil =>
          subst same
          exact absurd List.mem_cons_self (none' e)
      | cons e' es' =>
          simp only [List.map_cons, List.cons_append, List.cons.injEq, Option.some.injEq,
            Except.ok.injEq] at same
          obtain ⟨rfl, same⟩ := same
          obtain ⟨rfl, rfl⟩ := ih same
          exact ⟨rfl, rfl⟩

/-- The readings of `- nil * nil true )` are a product, spelled by four tokens, and a truth value,
spelled by one. After them the parenthesis is left. -/
theorem results_spelled_product :
    let product : Expr := .binary (.unary .negate (.literal .nil)) .multiply (.literal .nil)
    let truth : Expr := .literal (.bool true)
    let spelling : List Token := [.minus, .nilWord, .star, .nilWord].map (.fixed · .origin)
    let word : Token := .fixed .trueWord .origin
    let paren : Token := .fixed .rightParen .origin
    let p := ofSupply (Replay.ofItems ((spelling ++ [word, paren]).map .token))
    p.results 4 = [some (.ok product), some (.ok truth),
        some (.error (.expectedExpression "')'" .origin)), none] ∧
      (product.Spells spelling ∧ product.isShaped = true) ∧
      (truth.Spells [word] ∧ truth.isShaped = true) ∧
      (p.afterCalls 1).ahead.Holds [.token word, .token paren] ∧
      (p.afterCalls 2).ahead.Holds [.token paren] := by
  intro product truth spelling word paren p
  have given : p.results 4 = [product, truth].map (fun e => some (.ok e)) ++
      [some (.error (.expectedExpression "')'" .origin)), none] := by decide +kernel
  -- What is left after each call is told by where the supply stands then.
  have stands : (p.afterCalls 1).ahead = ⟨Replay.ofItems [.token paren], some (.token word)⟩ ∧
      (p.afterCalls 2).ahead = ⟨Replay.ofItems [], some (.token paren)⟩ := by decide +kernel
  have first : (p.afterCalls 1).ahead.Holds [.token word, .token paren] :=
    stands.1 ▸ ⟨[.token paren], Replay.gives_ofItems _, rfl⟩
  have second : (p.afterCalls 2).ahead.Holds [.token paren] :=
    stands.2 ▸ ⟨[], Replay.gives_ofItems _, rfl⟩
  obtain ⟨readings, others, results, none', each, prefixes⟩ :=
    results_spelled (Replay.gives_ofItems ((spelling ++ [word, paren]).map .token)) 4
  have same : [product, truth].map (fun e => some (.ok e)) ++
        [some (.error (.expectedExpression "')'" .origin)), none] =
      (readings.map (·.1)).map (fun e => some (.ok e)) ++ others := by
    rw [List.map_map, ← given]
    exact results
  obtain ⟨same, -⟩ := leading_unique same (by simp) none'
  obtain ⟨⟨e, ts⟩, tail, rfl, rfl, same'⟩ := List.map_eq_cons_iff.mp same.symm
  obtain ⟨⟨e', ts'⟩, tail, rfl, rfl, nil⟩ := List.map_eq_cons_iff.mp same'
  obtain rfl := List.map_eq_nil_iff.mp nil
  obtain ⟨left, split, ahead⟩ := prefixes 1 (Nat.le_succ 1)
  obtain ⟨left', split', ahead'⟩ := prefixes 2 (Nat.le_refl 2)
  cases first.unique ahead
  cases second.unique ahead'
  have tokens_inj {ts ts' : List Token} (same : ts.map Item.token = ts'.map .token) : ts = ts' :=
    (List.map_inj_right fun _ _ => Item.token.inj).mp same
  obtain rfl : spelling = ts := tokens_inj (by simpa using split)
  obtain rfl : [word] = ts' := by
    have whole : [word].map Item.token ++ [.token paren] = ts'.map .token ++ [.token paren] := by
      simpa using split'
    exact tokens_inj (List.append_cancel_right whole)
  exact ⟨given, each _ List.mem_cons_self, each _ (List.mem_cons_of_mem _ List.mem_cons_self),
    first, second⟩

end Parser

end LoxSyntax
