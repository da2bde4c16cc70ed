import LoxSyntax.Diagnostic
import LoxSyntax.Proofs.Expr.Grammar

/-! # Positions in an expression
Which tokens may come next in an expression depends on two things alone: whether an operand is due,
and how many groups are open. A **position** holds both. `walk` follows the tokens from a position,
and stops at one that cannot stand there.

1. *Beginnings*: the tokens that some expression of the grammar begins with, and the two ways in
which one can be incomplete.
2. *Positions*: what one token does, and what a spelling does (`walk_of_spells`).
3. *Blocked tokens*: a token at which `walk` stops continues no beginning of an expression
(`Blocked.not_isViable`). -/

namespace LoxSyntax

/-- Whether an operand is due after a token of the kind: an opening parenthesis, or an operator. -/
def Kind.awaitsOperand (k : Kind) : Bool :=
  k == .leftParen || (UnaryOp.ofKind? k).isSome || (BinaryOp.ofKind? k).isSome

namespace Expr

/-! ## (1) Beginnings -/

/-- **A beginning of an expression**: some expression of the grammar begins with the tokens. -/
def IsViable (ts : List Token) : Prop := ∃ more e, Derives 1 (ts ++ more) e

/-- **An operand is due** after the tokens: there are none yet, or the last one awaits one. -/
def OperandDue (ts : List Token) : Prop := ∀ t ∈ ts.getLast?, t.kind.awaitsOperand = true

/-- **The tokens end in an open group**, with a complete expression inside it. -/
def EndsInGroup (ts : List Token) : Prop :=
  ∃ before opened inside e, ts = before ++ opened :: inside ∧ opened.kind = .leftParen ∧
    Derives 1 inside e

/-! ## (2) Positions -/

/-- A **position** in an expression. -/
structure Position where
  /-- How many groups are open. -/
  groups : Nat
  /-- Whether an operand is due. -/
  due : Bool
deriving DecidableEq

namespace Position

/-- **One token** of a kind, where it may stand. -/
def step (p : Position) (k : Kind) : Option Position :=
  if p.due then
    match k.opening? with
    | some .literal => some ⟨p.groups, false⟩
    | some .group => some ⟨p.groups + 1, true⟩
    | some (.unary _) => some ⟨p.groups, true⟩
    | none => none
  else if (BinaryOp.ofKind? k).isSome then some ⟨p.groups, true⟩
  else if k = .rightParen then
    match p.groups with
    | 0 => none
    | groups + 1 => some ⟨groups, false⟩
  else none

/-- **The tokens one after the other**, if each may stand where it does. -/
def walk (p : Position) : List Token → Option Position
  | [] => some p
  | t :: ts => (p.step t.kind).bind (walk · ts)

@[simp] theorem walk_nil (p : Position) : p.walk [] = some p := rfl

theorem walk_cons (p : Position) (t : Token) (ts : List Token) :
    p.walk (t :: ts) = (p.step t.kind).bind (walk · ts) := rfl

/-- Tokens after tokens go on where those ended. -/
theorem walk_append (p : Position) (ts us : List Token) :
    p.walk (ts ++ us) = (p.walk ts).bind (walk · us) := by
  induction ts generalizing p with
  | nil => rfl
  | cons t ts ih =>
      rw [List.cons_append, walk_cons, walk_cons, Option.bind_assoc]
      congr 1
      funext q
      exact ih q

/-- A literal token may stand where an operand is due, and leaves none due. -/
theorem step_of_literal {k : Kind} (opens : k.opening? = some .literal) (groups : Nat) :
    step ⟨groups, true⟩ k = some ⟨groups, false⟩ := by
  simp only [step, opens, if_true]

/-- An opening parenthesis may stand where an operand is due, and opens a group. -/
theorem step_leftParen (groups : Nat) :
    step ⟨groups, true⟩ .leftParen = some ⟨groups + 1, true⟩ := rfl

/-- A closing parenthesis may stand where a group is open and no operand is due. -/
theorem step_rightParen (groups : Nat) :
    step ⟨groups + 1, false⟩ .rightParen = some ⟨groups, false⟩ := rfl

/-- A unary operator may stand where an operand is due, and leaves it due. -/
theorem step_unary (op : UnaryOp) (groups : Nat) :
    step ⟨groups, true⟩ op.kind = some ⟨groups, true⟩ := by
  cases op <;> rfl

/-- A binary operator may stand where no operand is due, and leaves one due. -/
theorem step_binary (op : BinaryOp) (groups : Nat) :
    step ⟨groups, false⟩ op.kind = some ⟨groups, true⟩ := by
  cases op <;> rfl

/-- **A spelling may stand where an operand is due**, and leaves none due. -/
theorem walk_of_spells {e : Expr} {ts : List Token} (spells : e.Spells ts) (groups : Nat) :
    walk ⟨groups, true⟩ ts = some ⟨groups, false⟩ := by
  induction spells generalizing groups with
  | literal opens => rw [walk_cons, step_of_literal opens, Option.bind_some, walk_nil]
  | group opens spells closes ih =>
      rw [walk_cons, opens, step_leftParen, Option.bind_some, walk_append, ih, Option.bind_some,
        walk_cons, closes, step_rightParen, Option.bind_some, walk_nil]
  | unary kind spells ih => rw [walk_cons, kind, step_unary, Option.bind_some, ih]
  | binary spellsLeft kind spellsRight ihl ihr =>
      rw [walk_append, ihl, Option.bind_some, walk_cons, kind, step_binary, Option.bind_some, ihr]

/-- A token leaves an operand due exactly if it awaits one. -/
theorem due_of_step {p q : Position} {k : Kind} (stepped : p.step k = some q) :
    q.due = k.awaitsOperand := by
  obtain ⟨groups, due⟩ := p
  cases due with
  | true => cases k <;> cases stepped <;> rfl
  | false => cases groups <;> cases k <;> cases stepped <;> rfl

/-- No token of the end of input may stand in an expression. -/
theorem step_endOfInput (p : Position) : p.step .endOfInput = none := by
  obtain ⟨groups, due⟩ := p
  cases due <;> rfl

/-- The end of input is not among tokens that may stand one after the other. -/
theorem kind_ne_endOfInput_of_walk {p q : Position} {ts : List Token}
    (walked : p.walk ts = some q) : ∀ t ∈ ts, t.kind ≠ .endOfInput := by
  induction ts generalizing p with
  | nil => exact List.forall_mem_nil _
  | cons t ts ih =>
      obtain ⟨mid, stepped, walked⟩ := Option.bind_eq_some_iff.mp walked
      refine List.forall_mem_cons.mpr ⟨?_, ih walked⟩
      intro same
      rw [same, step_endOfInput] at stepped
      cases stepped

/-- Tokens that may stand one after the other leave an operand due exactly if the last one awaits
one. -/
theorem due_of_walk {p q : Position} {ts : List Token} (start : p.due = true)
    (walked : p.walk ts = some q) : q.due = true ↔ OperandDue ts := by
  rcases List.eq_nil_or_concat ts with rfl | ⟨before, last, rfl⟩
  · cases walked
    simp [OperandDue, start]
  · rw [List.concat_eq_append] at walked ⊢
    rw [walk_append] at walked
    obtain ⟨mid, -, walked⟩ := Option.bind_eq_some_iff.mp walked
    obtain ⟨q', stepped, same⟩ := Option.bind_eq_some_iff.mp walked
    cases same
    rw [due_of_step stepped]
    simp [OperandDue]

/-- Where a complete expression ends inside a group, no operand is due. -/
theorem due_of_endsInGroup {p q : Position} {ts : List Token} (walked : p.walk ts = some q)
    (ends : EndsInGroup ts) : q.due = false := by
  obtain ⟨before, opened, inside, e, rfl, opens, derives⟩ := ends
  rw [walk_append] at walked
  obtain ⟨mid, -, walked⟩ := Option.bind_eq_some_iff.mp walked
  obtain ⟨mid', stepped, walked⟩ := Option.bind_eq_some_iff.mp walked
  -- After the parenthesis an operand is due, and the expression takes its place.
  obtain ⟨groups, due⟩ := mid'
  have awaits : due = true := by
    have same := due_of_step stepped
    rw [opens] at same
    exact same
  rw [awaits, walk_of_spells derives.spells.1] at walked
  cases walked
  rfl

end Position

/-- **What an expression begins with may stand** from its first position on. -/
theorem IsViable.walk {ts : List Token} (viable : IsViable ts) :
    ∃ q, Position.walk ⟨0, true⟩ ts = some q := by
  obtain ⟨more, e, derives⟩ := viable
  have walked := Position.walk_of_spells derives.spells.1 0
  rw [Position.walk_append] at walked
  obtain ⟨q, walked, -⟩ := Option.bind_eq_some_iff.mp walked
  exact ⟨q, walked⟩

/-! ## (3) Blocked tokens -/

/-- **Tokens that leave an operand due**, wherever one was due before them. -/
def KeepsDue (ts : List Token) : Prop :=
  ∀ groups, ∃ groups', Position.walk ⟨groups, true⟩ ts = some ⟨groups', true⟩

/-- Where an operand is due, an opening parenthesis leaves one due. -/
theorem keepsDue_leftParen {t : Token} (kind : t.kind = .leftParen) : KeepsDue [t] := by
  intro groups
  exact ⟨groups + 1, by rw [Position.walk_cons, kind]; rfl⟩

/-- Where an operand is due, a unary operator leaves it due. -/
theorem keepsDue_unary {t : Token} {op : UnaryOp} (kind : t.kind = op.kind) : KeepsDue [t] := by
  intro groups
  exact ⟨groups, by rw [Position.walk_cons, kind, Position.step_unary]; rfl⟩

/-- A spelling and a binary operator leave an operand due. -/
theorem keepsDue_binary {left : Expr} {ls : List Token} {t : Token} {op : BinaryOp}
    (spells : left.Spells ls) (kind : t.kind = op.kind) : KeepsDue (ls ++ [t]) := by
  intro groups
  refine ⟨groups, ?_⟩
  rw [Position.walk_append, Position.walk_of_spells spells, Option.bind_some, Position.walk_cons,
    kind, Position.step_binary]
  rfl

/-- **A blocked token**: some tokens come before it in an expression, and it cannot come next. The
failure says what is due instead. -/
inductive Blocked (ts : List Token) (t : Token) : Diagnostic → Prop where
  /-- An operand is due, and the token does not open one. -/
  | operand (due : KeepsDue ts) (opens : t.kind.opening? = none) :
    Blocked ts t (.expectedExpression t.location t.span)
  /-- A complete expression stands in an open group, and the token neither closes the group nor goes
  on with the expression. -/
  | closing {before inside : List Token} {opened : Token} {e : Expr} (due : KeepsDue before)
    (split : ts = before ++ opened :: inside) (opens : opened.kind = .leftParen)
    (derives : Derives 1 inside e) (closes : t.kind ≠ .rightParen)
    (joins : BinaryOp.ofKind? t.kind = none) :
    Blocked ts t (.expectedClosingParen t.location t.span)

/-- A token stays blocked after more tokens that leave an operand due. -/
theorem Blocked.append {before ts : List Token} {t : Token} {d : Diagnostic}
    (blocked : Blocked ts t d) (due : KeepsDue before) : Blocked (before ++ ts) t d := by
  have joined : ∀ {us : List Token}, KeepsDue us → KeepsDue (before ++ us) := by
    intro us more groups
    obtain ⟨mid, walked⟩ := due groups
    obtain ⟨groups', walked'⟩ := more mid
    exact ⟨groups', by rw [Position.walk_append, walked, Option.bind_some, walked']⟩
  cases blocked with
  | operand due' opens => exact .operand (joined due') opens
  | closing due' split opens derives closes joins =>
      rw [split, ← List.append_assoc]
      exact .closing (joined due') rfl opens derives closes joins

/-- The failure at a blocked token names the token, and where it stands. -/
theorem Blocked.names {ts : List Token} {t : Token} {d : Diagnostic} (blocked : Blocked ts t d) :
    d = .expectedExpression t.location t.span ∨ d = .expectedClosingParen t.location t.span := by
  cases blocked with
  | operand due opens => exact .inl rfl
  | closing due split opens derives closes joins => exact .inr rfl

/-- Where a token is blocked, the tokens before it may stand one after the other, and it may not
stand next. -/
theorem Blocked.walk {ts : List Token} {t : Token} {d : Diagnostic} (blocked : Blocked ts t d) :
    ∃ q, Position.walk ⟨0, true⟩ ts = some q ∧ q.step t.kind = none := by
  cases blocked with
  | operand due opens =>
      obtain ⟨groups, walked⟩ := due 0
      exact ⟨_, walked, by simp only [Position.step, opens, if_true]⟩
  | closing due split opens derives closes joins =>
      obtain ⟨groups, walked⟩ := due 0
      refine ⟨⟨groups + 1, false⟩, ?_, ?_⟩
      · rw [split, Position.walk_append, walked, Option.bind_some, Position.walk_cons, opens,
          Position.step_leftParen, Option.bind_some, Position.walk_of_spells derives.spells.1]
      · simp [Position.step, closes, joins]

/-- **No expression begins with the tokens up to a blocked one.** -/
theorem Blocked.not_isViable {ts : List Token} {t : Token} {d : Diagnostic}
    (blocked : Blocked ts t d) : ¬ IsViable (ts ++ [t]) := by
  intro viable
  obtain ⟨q, walked, stuck⟩ := blocked.walk
  obtain ⟨q', walked'⟩ := viable.walk
  rw [Position.walk_append, walked, Option.bind_some, Position.walk_cons, stuck] at walked'
  cases walked'

/-- **What the failure at a blocked token says**: that an operand is expected exactly if one is due,
and that a closing parenthesis is exactly if a complete expression stands in an open group. -/
theorem Blocked.cause {ts : List Token} {t : Token} {d : Diagnostic} (blocked : Blocked ts t d) :
    (d = .expectedExpression t.location t.span ↔ OperandDue ts) ∧
      (d = .expectedClosingParen t.location t.span ↔ EndsInGroup ts) := by
  obtain ⟨q, walked, -⟩ := blocked.walk
  have due_iff := Position.due_of_walk rfl walked
  -- An operand is not due where a complete expression ends.
  have apart : EndsInGroup ts → ¬ OperandDue ts := by
    intro ends isDue
    have due := due_iff.mpr isDue
    rw [Position.due_of_endsInGroup walked ends] at due
    cases due
  cases blocked with
  | operand due opens =>
      obtain ⟨groups, walked'⟩ := due 0
      have isDue : OperandDue ts := (Position.due_of_walk rfl walked').mp rfl
      exact ⟨iff_of_true rfl isDue, iff_of_false (by simp) fun ends => apart ends isDue⟩
  | closing due split opens derives closes joins =>
      have ends : EndsInGroup ts := ⟨_, _, _, _, split, opens, derives⟩
      exact ⟨iff_of_false (by simp) (apart ends), iff_of_true rfl ends⟩

end Expr

end LoxSyntax
