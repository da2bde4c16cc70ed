import LoxSyntax.Proofs.Expr.Failure

/-! # What is taken from a supply
A reader takes tokens one at a time, and looks ahead in between. What it took says how far it is,
whatever the supply is made of, an endless one or one that gives nothing for a while included. A
reading that succeeds has taken a spelling and looked once past it; one that fails was about to look
at nothing, and has just taken what it failed at.

1. *Takings*: tokens taken from a lookahead, and what may fail there.
2. *Single actions*.
3. *Readings*, by induction over what was read and over what could not be read.
4. *Calls* of a parser. -/

namespace LoxSyntax

open Reading

variable {σ : Type} [Supply σ]

/-! ## (1) Takings -/

namespace Lookahead

/-- **Some tokens were taken**, none of them the end of input, with looks ahead in between. -/
inductive Took (ahead : Lookahead σ) : List Token → Lookahead σ → Prop where
  /-- Nothing was done yet. -/
  | nothing : Took ahead [] ahead
  /-- A look takes nothing. -/
  | look {ts : List Token} {after : Lookahead σ} (took : Took ahead ts after) :
    Took ahead ts after.peek.after
  /-- A token is taken. -/
  | token {ts : List Token} {after : Lookahead σ} {t : Token} (took : Took ahead ts after)
    (given : after.pull.given = some (.token t)) (kind : t.kind ≠ .endOfInput) :
    Took ahead (ts ++ [t]) after.pull.after

/-- A single token was taken. -/
theorem took_token {ahead : Lookahead σ} {t : Token} (given : ahead.pull.given = some (.token t))
    (kind : t.kind ≠ .endOfInput) : Took ahead [t] ahead.pull.after :=
  .token .nothing given kind

/-- More tokens come after those taken before. -/
theorem Took.trans {ahead after last : Lookahead σ} {ts us : List Token}
    (took : Took ahead ts after) (more : Took after us last) : Took ahead (ts ++ us) last := by
  induction more with
  | nothing => rwa [List.append_nil]
  | look more ih => exact .look ih
  | token more given kind ih =>
      rw [← List.append_assoc]
      exact .token ih given kind

/-- The end of input is not among the tokens taken. -/
theorem Took.kind_ne_endOfInput {ahead after : Lookahead σ} {ts : List Token}
    (took : Took ahead ts after) : ∀ t ∈ ts, t.kind ≠ .endOfInput := by
  induction took with
  | nothing => exact List.forall_mem_nil _
  | look took ih => exact ih
  | token took given kind ih =>
      exact List.forall_mem_append.mpr ⟨ih, List.forall_mem_singleton.mpr kind⟩

/-- Tokens taken from finitely many items are the first of them, and the others are left. -/
theorem Holds.took {ahead after : Lookahead σ} {items : List Item} {ts : List Token}
    (holds : ahead.Holds items) (took : Took ahead ts after) :
    ∃ rest, items = ts.map .token ++ rest ∧ after.Holds rest := by
  induction took with
  | nothing => exact ⟨items, rfl, holds⟩
  | look took ih =>
      obtain ⟨rest, split, holds'⟩ := ih
      exact ⟨rest, split, holds'.peek⟩
  | @token ts after t took given kind ih =>
      obtain ⟨rest, split, holds'⟩ := ih
      rw [holds'.given_pull] at given
      obtain ⟨rest, rfl⟩ := List.head?_eq_some_iff.mp given
      exact ⟨rest, by rw [split, List.map_append, List.append_assoc]; rfl, holds'.pull⟩

/-- **What comes next fails** with a diagnostic once it is taken: a fault fails by itself, a token
or the want of one where it stands. -/
inductive Fails (ahead : Lookahead σ) (d : Diagnostic) : Prop where
  /-- A fault comes next. -/
  | fault (given : ahead.pull.given = some (.fault d))
  /-- A token comes next that cannot stand there. -/
  | token {t : Token} (given : ahead.pull.given = some (.token t)) (fails : FailsAt t d)
  /-- Nothing comes next, and the end of input cannot stand there. -/
  | missing {span : Span} (given : ahead.pull.given = none) (fails : FailsAt (.endOfInput span) d)

end Lookahead

namespace Reading

/-! ## (2) Single actions -/

/-- What is taken is the next item, or the end of input where there is none. -/
theorem given_of_advance {r r' : Reader σ} {t : Token} (taken : advance r = .ok t r') :
    r'.ahead = r.ahead.pull.after ∧ (r.ahead.pull.given = some (.token t) ∨
      r.ahead.pull.given = none ∧ t = .endOfInput r.last) := by
  unfold advance at taken
  dsimp only at taken
  split at taken
  · next given =>
      cases taken
      exact ⟨rfl, .inl given⟩
  · cases taken
  · next given =>
      cases taken
      exact ⟨rfl, .inr ⟨given, rfl⟩⟩

/-- A token other than the end of input was taken. -/
theorem took_of_advance {r r' : Reader σ} {t : Token} (taken : advance r = .ok t r')
    (kind : t.kind ≠ .endOfInput) : r.ahead.Took [t] r'.ahead := by
  obtain ⟨after, given | ⟨-, rfl⟩⟩ := given_of_advance taken
  · rw [after]
    exact Lookahead.took_token given kind
  · exact absurd rfl kind

/-- Where nothing can be taken a fault comes next. -/
theorem fails_of_advance {r r' : Reader σ} {d : Diagnostic} (failed : advance r = .error d r') :
    r.ahead.Fails d ∧ r'.ahead = r.ahead.pull.after := by
  unfold advance at failed
  dsimp only at failed
  split at failed
  · cases failed
  · next given =>
      cases failed
      exact ⟨.fault given, rfl⟩
  · cases failed

/-- A failure at the token taken is one at what comes next. -/
theorem FailsAt.fails {r r' : Reader σ} {t : Token} {d : Diagnostic} (fails : FailsAt t d)
    (taken : advance r = .ok t r') : r.ahead.Fails d ∧ r'.ahead = r.ahead.pull.after := by
  obtain ⟨after, given | ⟨given, rfl⟩⟩ := given_of_advance taken
  · exact ⟨.token given fails, after⟩
  · exact ⟨.missing given fails, after⟩

/-- A look for the next operator takes nothing. -/
theorem took_nothing {least : Nat} {r r' : Reader σ} {op : Option BinaryOp}
    (seen : peekOperator least r = .ok op r') : r.ahead.Took [] r'.ahead := by
  rw [peekOperator_eq_peek] at seen
  obtain ⟨-, rfl⟩ := EStateM.Result.ok.inj seen
  exact .look .nothing

/-- An operator that was seen is the next token, and that is the one taken then. -/
theorem took_operator {least : Nat} {r r₁ r₂ : Reader σ} {op : BinaryOp} {t : Token}
    (seen : peekOperator least r = .ok (some op) r₁) (taken : advance r₁ = .ok t r₂) :
    t.kind = op.kind ∧ r.ahead.Took [t] r₂.ahead := by
  rw [peekOperator_eq_peek] at seen
  obtain ⟨next, rfl⟩ := EStateM.Result.ok.inj seen
  obtain ⟨t', rest, split, kind, -⟩ := nextOperator_eq_some_iff.mp next
  have looked : r.ahead.peek.given = some (.token t') := by
    rw [← Option.head?_toList (o := r.ahead.peek.given), split, List.head?_cons]
  -- The token was looked at, so it is held, and nothing else can be taken.
  have given := congrArg Step.given (Lookahead.pull_peek looked)
  obtain ⟨after, given' | ⟨given', -⟩⟩ := given_of_advance taken
  · obtain rfl := Item.token.inj (Option.some.inj (given.symm.trans given'))
    refine ⟨kind, ?_⟩
    rw [after]
    exact .token (.look .nothing) given (by rw [kind]; cases op <;> decide)
  · cases given.symm.trans given'

/-! ## (3) Readings -/

/-- **An operand took its spelling.** -/
def TookOperand (r : Reader σ) (e : Expr) (r' : Reader σ) : Prop :=
  ∃ ts, e.Spells ts ∧ r.ahead.Took ts r'.ahead

/-- **A chain took the rest of its spelling**, what comes after that of its left side, and looked at
the next item at the end. -/
def TookChain (left : Expr) (r : Reader σ) (e : Expr) (r' : Reader σ) : Prop :=
  ∃ ts before, (∀ ls, left.Spells ls → e.Spells (ls ++ ts)) ∧ r.ahead.Took ts before ∧
    r'.ahead = before.peek.after

/-- **A side took its spelling**, and looked at the next item at the end. -/
def TookSide (r : Reader σ) (e : Expr) (r' : Reader σ) : Prop :=
  ∃ ts before, e.Spells ts ∧ r.ahead.Took ts before ∧ r'.ahead = before.peek.after

/-- An operand and the chain after it take a spelling together. -/
theorem TookOperand.chain {r r₁ r₂ : Reader σ} {first e : Expr} (operand : TookOperand r first r₁)
    (chain : TookChain first r₁ e r₂) : TookSide r e r₂ := by
  obtain ⟨fs, spells, took⟩ := operand
  obtain ⟨cs, before, completes, took', looked⟩ := chain
  exact ⟨fs ++ cs, before, completes fs spells, took.trans took', looked⟩

/-- A side took its spelling, whether it looked at the end or not. -/
theorem TookSide.operand {r r' : Reader σ} {e : Expr} (side : TookSide r e r') :
    TookOperand r e r' := by
  obtain ⟨ts, before, spells, took, looked⟩ := side
  refine ⟨ts, spells, ?_⟩
  rw [looked]
  exact .look took

/-- A token that opens an operand is not the end of input. -/
theorem took_opening {r r' : Reader σ} {t : Token} {opening : Opening}
    (taken : advance r = .ok t r') (opens : t.kind.opening? = some opening) :
    r.ahead.Took [t] r'.ahead := by
  refine took_of_advance taken ?_
  intro same
  rw [same] at opens
  cases opens

/-- A group takes the spelling of what is inside it, between its parentheses. -/
theorem TookOperand.group {r r₁ r₂ r' : Reader σ} {t : Token} {inner e : Expr}
    (taken : advance r = .ok t r₁) (opens : t.kind.opening? = some .group)
    (inside : TookOperand r₁ inner r₂) (closed : closeGroup inner r₂ = .ok e r') :
    TookOperand r e r' := by
  obtain ⟨ts, spells, took⟩ := inside
  obtain ⟨t', r₃, taken', kind', rfl, ahead⟩ := closeGroup_eq_ok closed
  have last := took_of_advance taken' (by rw [kind']; decide)
  rw [← ahead] at last
  exact ⟨t :: (ts ++ [t']), .group (Kind.opening?_eq_group_iff.mp opens) spells kind',
    (took_opening taken opens).trans (took.trans last)⟩

/-- A chain that goes on takes the operator, its right side, and the rest of the chain. -/
theorem TookChain.more {least : Nat} {left right e : Expr} {op : BinaryOp} {t : Token}
    {r r₁ r₂ r₃ r' : Reader σ} (seen : peekOperator least r = .ok (some op) r₁)
    (taken : advance r₁ = .ok t r₂) (beside : TookOperand r₂ right r₃)
    (chain : TookChain (.binary left op right) r₃ e r') : TookChain left r e r' := by
  obtain ⟨kind, first⟩ := took_operator seen taken
  obtain ⟨rs, spellsRight, took⟩ := beside
  obtain ⟨cs, before, completes, took', looked⟩ := chain
  refine ⟨[t] ++ rs ++ cs, before, ?_, (first.trans took).trans took', looked⟩
  intro ls spellsLeft
  have whole := completes _ (.binary spellsLeft kind spellsRight)
  simpa using whole

/-- **Every reading that succeeds takes a spelling.** -/
theorem took_of_read (limit room : Nat) :
    (∀ {r : Reader σ} {e r'}, operand limit room r = .ok e r' → TookOperand r e r') ∧
      ∀ {least left} {r : Reader σ} {e r'}, chain limit room least left r = .ok e r' →
        TookChain left r e r' := by
  apply success_induction (P := fun _ (r : Reader σ) e r' => TookOperand r e r')
    (Q := fun _ _ left r e r' => TookChain left r e r')
  case literal =>
    intro room r t r₁ taken opens
    exact ⟨[t], .literal opens, took_opening taken opens⟩
  case group =>
    intro room r t r₁ first r₂ inner r₃ e r' taken opens operand chain closed
    exact (operand.chain chain).operand.group taken opens closed
  case unary =>
    intro room r t r₁ op inner r' taken opens operand
    obtain ⟨ts, spells, took⟩ := operand
    exact ⟨t :: ts, .unary (Kind.opening?_eq_unary_iff.mp opens) spells,
      (took_opening taken opens).trans took⟩
  case done =>
    intro room least left r r' seen
    rw [peekOperator_eq_peek] at seen
    obtain ⟨-, rfl⟩ := EStateM.Result.ok.inj seen
    -- The look that ends a chain is the last one of the side.
    refine ⟨[], r.ahead, ?_, .nothing, rfl⟩
    intro ls spells
    rwa [List.append_nil]
  case more =>
    intro room least left r op r₁ t r₂ first r₃ right r₄ e r' seen taken operand beside chain
    exact .more seen taken (operand.chain beside).operand chain

/-- **A side that was read** took its spelling, and looked at the next item at the end. -/
theorem took_of_side {limit room least : Nat} {r r' : Reader σ} {e : Expr}
    (read : side limit room least r = .ok e r') : TookSide r e r' := by
  obtain ⟨first, r₁, started, went⟩ := bind_eq_ok_iff.mp read
  obtain ⟨operands, chains⟩ := took_of_read (σ := σ) limit room
  exact (operands started).chain (chains went)

/-- **A reading that failed** took some tokens, and then what it failed at. -/
def TookUntil (r : Reader σ) (d : Diagnostic) (r' : Reader σ) : Prop :=
  ∃ ts before, r.ahead.Took ts before ∧ before.Fails d ∧ r'.ahead = before.pull.after

/-- What fails at once took nothing before. -/
theorem tookUntil_here {r r' : Reader σ} {d : Diagnostic}
    (failed : r.ahead.Fails d ∧ r'.ahead = r.ahead.pull.after) : TookUntil r d r' :=
  ⟨[], r.ahead, .nothing, failed.1, failed.2⟩

/-- A reading that fails later took more before. -/
theorem TookUntil.after {r r₁ r' : Reader σ} {ts : List Token} {d : Diagnostic}
    (stopped : TookUntil r₁ d r') (took : r.ahead.Took ts r₁.ahead) : TookUntil r d r' := by
  obtain ⟨us, before, took', failed⟩ := stopped
  exact ⟨ts ++ us, before, took.trans took', failed⟩

/-- **Every reading that fails** does so at what it took last. -/
theorem tookUntil_of_failed (limit room : Nat) :
    (∀ {r : Reader σ} {d r'}, operand limit room r = .error d r' → TookUntil r d r') ∧
    (∀ {least} {r : Reader σ} {d r'}, side limit room least r = .error d r' → TookUntil r d r') ∧
    ∀ {least left} {r : Reader σ} {d r'}, chain limit room least left r = .error d r' →
      TookUntil r d r' := by
  apply failure_induction (P := fun _ (r : Reader σ) d r' => TookUntil r d r')
    (S := fun _ _ (r : Reader σ) d r' => TookUntil r d r')
    (Q := fun _ _ _ (r : Reader σ) d r' => TookUntil r d r')
  case fault =>
    intro room r d r' failed
    exact tookUntil_here (fails_of_advance failed)
  case unexpected =>
    intro room r t r' taken opens
    exact tookUntil_here (FailsAt.operand.fails taken)
  case deep =>
    intro r t r' taken
    exact tookUntil_here ((FailsAt.deep limit).fails taken)
  case group =>
    intro room r t r₁ d r' taken opens inside
    exact inside.after (took_opening taken opens)
  case closing =>
    intro room r t r₁ inner r₂ d r' taken opens content failed
    obtain ⟨ts, -, took⟩ := (took_of_side content).operand
    -- What stands in the parenthesis' place was taken, or could not be.
    have last : TookUntil r₂ d r' := by
      obtain lost | ⟨t', r₃, taken', -, rfl, ahead⟩ := closeGroup_eq_error failed
      · exact tookUntil_here (fails_of_advance lost)
      · obtain ⟨fails, after⟩ := FailsAt.closing.fails taken'
        exact tookUntil_here ⟨fails, ahead.trans after⟩
    exact last.after ((took_opening taken opens).trans took)
  case unary =>
    intro room r t r₁ op d r' taken opens inside
    exact inside.after (took_opening taken opens)
  case first =>
    intro room least r d r' first
    exact first
  case rest =>
    intro room least r left r₁ d r' started chain
    obtain ⟨ts, -, took⟩ := (took_of_read limit room).1 started
    exact chain.after took
  case lost =>
    intro room least left r op r₁ d r' seen failed
    exact (tookUntil_here (fails_of_advance failed)).after (took_nothing seen)
  case deepOperator =>
    intro least left r op r₁ t r' seen taken
    exact (tookUntil_here ((FailsAt.deep limit).fails taken)).after (took_nothing seen)
  case right =>
    intro room least left r op r₁ t r₂ d r' seen taken beside
    exact beside.after (took_operator seen taken).2
  case more =>
    intro room least left r op r₁ t r₂ right r₃ d r' seen taken beside chain
    obtain ⟨ts, -, took⟩ := (took_of_side beside).operand
    exact chain.after ((took_operator seen taken).2.trans took)

end Reading

/-! ## (4) Calls -/

namespace Parser

/-- **A call that gives an expression** took its spelling, and looked at the next item at the end.
-/
theorem took_of_next_ok {p : Parser σ} {e : Expr} (given : p.next.given = some (.ok e)) :
    ∃ ts before, e.Spells ts ∧ p.ahead.Took ts before ∧
      p.next.after.ahead = before.peek.after := by
  obtain ⟨-, r, read, after⟩ := next_eq_ok given
  rw [expression_eq_side] at read
  obtain ⟨ts, before, spells, took, looked⟩ := took_of_side read
  have start : p.ahead.Took [] p.reader.ahead := .look .nothing
  rw [after]
  exact ⟨ts, before, spells, start.trans took, looked⟩

/-- **A call that gives an error** took some tokens, and then what it failed at. -/
theorem took_of_next_error {p : Parser σ} {d : Diagnostic}
    (given : p.next.given = some (.error d)) :
    ∃ ts before, p.ahead.Took ts before ∧ before.Fails d ∧
      p.next.after.ahead = before.pull.after := by
  obtain ⟨-, r, failed, after⟩ := next_eq_error given
  rw [expression_eq_side] at failed
  obtain ⟨ts, before, took, fails, last⟩ := (tookUntil_of_failed p.limit p.limit).2.1 failed
  have start : p.ahead.Took [] p.reader.ahead := .look .nothing
  rw [after]
  exact ⟨ts, before, start.trans took, fails, last⟩

end Parser

end LoxSyntax
