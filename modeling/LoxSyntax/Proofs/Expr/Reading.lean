import LoxSyntax.Expr.Parser
import LoxSyntax.Proofs.Supply

/-! # What the reading actions do
Each action of a reader is described once here, and later proofs use the descriptions alone.

1. *Sequencing*: an action after another runs where the first one ended, or fails with it.
2. *Single actions*: what `advance`, `peekOperator` and `closeGroup` do when a finite list of items
   is ahead.
3. *Operands and sides*: `side` is an operand with the chain after it. A group holds a side of
   least precedence, and the right of an operator is a side that binds more tightly.
4. *Successful readings*: `success_induction` turns a property that each way to read keeps into one
   of all readings that succeed, on every supply.
5. *Contracts*: what single actions keep, and where they may fail, holds of reading an expression
   (`meets_expression`). -/

namespace LoxSyntax.Reading

variable {σ α β : Type}

/-! ## (1) Sequencing -/

/-- Two actions succeed together when the second succeeds where the first one ended. -/
theorem bind_eq_ok_iff {x : Reading σ α} {f : α → Reading σ β} {r r' : Reader σ} {b : β} :
    (x >>= f) r = .ok b r' ↔ ∃ a r₁, x r = .ok a r₁ ∧ f a r₁ = .ok b r' := by
  change EStateM.bind x f r = _ ↔ _
  unfold EStateM.bind
  constructor
  · intro h
    split at h
    · next a r₁ hx => exact ⟨a, r₁, hx, h⟩
    · cases h
  · rintro ⟨a, r₁, hx, hf⟩
    rw [hx]
    exact hf

/-- After a success the second action goes on. -/
theorem bind_of_ok {x : Reading σ α} {r r₁ : Reader σ} {a : α} (h : x r = .ok a r₁)
    (f : α → Reading σ β) : (x >>= f) r = f a r₁ := by
  change EStateM.bind x f r = _
  rw [EStateM.bind, h]

/-- After a failure the second action is left out. -/
theorem bind_of_error {x : Reading σ α} {r r₁ : Reader σ} {d : Diagnostic}
    (h : x r = .error d r₁) (f : α → Reading σ β) : (x >>= f) r = .error d r₁ := by
  change EStateM.bind x f r = _
  rw [EStateM.bind, h]

/-- A value is returned where the reader stands. -/
theorem pure_eq_ok_iff {a b : α} {r r' : Reader σ} :
    (pure a : Reading σ α) r = .ok b r' ↔ a = b ∧ r = r' := by
  change EStateM.Result.ok a r = _ ↔ _
  rw [EStateM.Result.ok.injEq]

/-! ## (2) Single actions -/

variable [Supply σ]

/-- The binary operator that the first of the items ahead writes, if it writes one that binds at
least as tightly as asked. -/
def nextOperator (least : Nat) (items : List Item) : Option BinaryOp :=
  ((kindOf items.head?).bind BinaryOp.ofKind?).filter (least ≤ ·.precedence)

/-- An operator comes next exactly when a token of its kind does and it binds tightly enough. -/
theorem nextOperator_eq_some_iff {least : Nat} {items : List Item} {op : BinaryOp} :
    nextOperator least items = some op ↔
      ∃ t rest, items = .token t :: rest ∧ t.kind = op.kind ∧ least ≤ op.precedence := by
  rw [nextOperator, Option.filter_eq_some_iff, Option.bind_eq_some_iff]
  constructor
  · rintro ⟨⟨k, kind, operator⟩, tight⟩
    cases items with
    | nil => cases kind
    | cons item rest =>
        cases item with
        | token t =>
            cases kind
            exact ⟨t, rest, rfl, BinaryOp.ofKind?_eq_some_iff.mp operator, by simpa using tight⟩
        | fault d => cases kind
  · rintro ⟨t, rest, rfl, kind, tight⟩
    exact ⟨⟨t.kind, rfl, BinaryOp.ofKind?_eq_some_iff.mpr kind⟩, by simpa using tight⟩

/-- Where no operator is tight enough, none is for a reader that asks for more. -/
theorem nextOperator_eq_none_of_le {least more : Nat} {items : List Item} (le : least ≤ more)
    (none : nextOperator least items = none) : nextOperator more items = .none := by
  rw [Option.eq_none_iff_forall_ne_some]
  intro op next
  obtain ⟨t, rest, rfl, kind, tight⟩ := nextOperator_eq_some_iff.mp next
  have found := nextOperator_eq_some_iff.mpr ⟨t, rest, rfl, kind, Nat.le_trans le tight⟩
  rw [none] at found
  cases found

/-- Items that begin with no binary operator stop every chain. -/
theorem nextOperator_eq_none_of_head? {least : Nat} {items : List Item}
    (starts : ∀ t, items.head? = some (.token t) → ∀ op : BinaryOp, t.kind ≠ op.kind) :
    nextOperator least items = none := by
  rw [Option.eq_none_iff_forall_ne_some]
  intro op next
  obtain ⟨t, rest, rfl, kind, -⟩ := nextOperator_eq_some_iff.mp next
  exact starts t rfl op kind

/-- A token that writes no binary operator stops every chain. -/
theorem nextOperator_eq_none_of_kind {least : Nat} {t : Token} {rest : List Item}
    (kind : ∀ op : BinaryOp, t.kind ≠ op.kind) : nextOperator least (.token t :: rest) = none := by
  apply nextOperator_eq_none_of_head?
  intro t' first
  cases first
  exact kind

/-- Taking the first of the tokens ahead. -/
theorem advance_token {r : Reader σ} {t : Token} {items : List Item}
    (holds : r.ahead.Holds (.token t :: items)) :
    ∃ r', advance r = .ok t r' ∧ r'.ahead.Holds items ∧ r'.last = t.span := by
  have given := holds.given_pull
  have after := holds.pull
  unfold advance
  simp only [given, List.head?_cons]
  exact ⟨_, rfl, after, rfl⟩

/-- A token that was taken stood first ahead, unless it is the end of input. -/
theorem holds_of_advance {r r' : Reader σ} {t : Token} {items : List Item}
    (holds : r.ahead.Holds items) (taken : advance r = .ok t r') (kind : t.kind ≠ .endOfInput) :
    ∃ rest, items = .token t :: rest ∧ r'.ahead.Holds rest := by
  have given := holds.given_pull
  have after := holds.pull
  unfold advance at taken
  cases items with
  | nil =>
      -- A supply that gives nothing counts as one that gives the end of input.
      simp only [given, List.head?_nil] at taken
      cases taken
      exact absurd rfl kind
  | cons item rest =>
      simp only [given, List.head?_cons] at taken
      cases item with
      | token t' =>
          cases taken
          exact ⟨rest, rfl, after⟩
      | fault d => cases taken

/-- A look for the next operator is a look at the next item. -/
theorem peekOperator_eq_peek (least : Nat) (r : Reader σ) :
    peekOperator least r = .ok (nextOperator least r.ahead.peek.given.toList)
      { r with ahead := r.ahead.peek.after, log := r.log ++ r.ahead.peek.records } := by
  rw [nextOperator, Option.head?_toList]
  rfl

/-- A look at the next operator sees the first of the items ahead and leaves all of them. -/
theorem peekOperator_eq {r : Reader σ} {items : List Item} (holds : r.ahead.Holds items)
    (least : Nat) :
    ∃ r', peekOperator least r = .ok (nextOperator least items) r' ∧ r'.ahead.Holds items ∧
      r'.last = r.last := by
  refine ⟨{ r with
    ahead := r.ahead.peek.after, log := r.log ++ r.ahead.peek.records }, ?_, holds.peek, rfl⟩
  rw [nextOperator, ← holds.given_peek]
  rfl

/-- A group closes at a closing parenthesis. -/
theorem closeGroup_token {r : Reader σ} {t : Token} {items : List Item}
    (holds : r.ahead.Holds (.token t :: items)) (kind : t.kind = .rightParen) (inner : Expr) :
    ∃ r', closeGroup inner r = .ok (.group inner) r' ∧ r'.ahead.Holds items ∧
      r'.last = t.span := by
  obtain ⟨r₁, taken, ahead, last⟩ := advance_token holds
  refine ⟨{ r₁ with log := r₁.log.push (.closing t) }, ?_, ahead, last⟩
  rw [closeGroup, bind_of_ok taken, if_pos kind]
  rfl

/-- A group that closed ended with a closing parenthesis. -/
theorem closeGroup_eq_ok {r r' : Reader σ} {inner e : Expr}
    (closed : closeGroup inner r = .ok e r') :
    ∃ t r₁, advance r = .ok t r₁ ∧ t.kind = .rightParen ∧ e = .group inner ∧
      r'.ahead = r₁.ahead := by
  rw [closeGroup] at closed
  obtain ⟨t, r₁, taken, closed⟩ := bind_eq_ok_iff.mp closed
  obtain ⟨_, r₂, noted, closed⟩ := bind_eq_ok_iff.mp closed
  cases noted
  split at closed
  · next kind =>
      obtain ⟨rfl, rfl⟩ := pure_eq_ok_iff.mp closed
      exact ⟨t, r₁, taken, kind, rfl, rfl⟩
  · cases closed

/-! ## (3) Operands and sides -/

/-- **Read a side of an operator** in at most `room` levels: an operand and the chain after it, with
the operators that bind at least as tightly as `least`. -/
def side (limit room least : Nat) : Reading σ Expr := do
  let first ← operand limit room
  chain limit room least first

/-- An expression is a side that takes every operator. -/
theorem expression_eq_side (limit room : Nat) :
    (expression limit room : Reading σ Expr) = side limit room 0 := rfl

/-- **What an operand is goes by its first token.** -/
theorem operand_of_taken {r r₁ : Reader σ} {t : Token} (taken : advance r = .ok t r₁)
    (limit room : Nat) :
    operand limit room r = (match t.kind.opening?, room with
      | none, _ => throw (Diagnostic.expectedExpression t.location t.span)
      | some .literal, _ => pure (Expr.literal (t.literal.getD .nil))
      | some .group, 0 => tooDeep limit t
      | some .group, room + 1 => side limit room 0 >>= closeGroup
      | some (.unary _), 0 => tooDeep limit t
      | some (.unary op), room + 1 =>
        operand limit room >>= fun inner => pure (Expr.unary op inner) : Reading σ Expr) r₁ := by
  rw [operand.eq_def, bind_of_ok taken]
  cases t.kind.opening? with
  | none => rfl
  | some opening =>
      cases opening with
      | literal => rfl
      | group =>
          cases room with
          | zero => rfl
          | succ room =>
              dsimp only
              rw [side, bind_assoc]
      | unary op => cases room <;> rfl

/-- A literal is an operand by itself. -/
theorem operand_literal {r r₁ : Reader σ} {t : Token} (taken : advance r = .ok t r₁)
    (opens : t.kind.opening? = some .literal) (limit room : Nat) :
    operand limit room r = .ok (.literal (t.literal.getD .nil)) r₁ := by
  rw [operand_of_taken taken, opens]
  rfl

/-- An opening parenthesis takes a level for the side up to the closing one. -/
theorem operand_group {r r₁ : Reader σ} {t : Token} (taken : advance r = .ok t r₁)
    (opens : t.kind.opening? = some .group) (limit room : Nat) :
    operand limit (room + 1) r = (side limit room 0 >>= closeGroup) r₁ := by
  rw [operand_of_taken taken, opens]

/-- An operator before an operand takes a level. -/
theorem operand_unary {r r₁ : Reader σ} {t : Token} {op : UnaryOp} (taken : advance r = .ok t r₁)
    (opens : t.kind.opening? = some (.unary op)) (limit room : Nat) :
    operand limit (room + 1) r =
      (operand limit room >>= fun inner => pure (Expr.unary op inner)) r₁ := by
  rw [operand_of_taken taken, opens]

/-- With no level left, an operand that needs one fails at its first token. -/
theorem operand_tooDeep {r r₁ : Reader σ} {t : Token} {opening : Opening}
    (taken : advance r = .ok t r₁) (opens : t.kind.opening? = some opening)
    (composite : opening ≠ .literal) (limit : Nat) :
    operand limit 0 r = .error (.tooDeep t.location limit t.span) r₁ := by
  rw [operand_of_taken taken, opens]
  cases opening with
  | literal => exact absurd rfl composite
  | group => rfl
  | unary op => rfl

/-- **What a chain is goes by the operator that is seen.** Its right is a side that binds more
tightly, and the node they form is the left of what follows. -/
theorem chain_of_seen {r r₁ : Reader σ} {least : Nat} {seen : Option BinaryOp}
    (looked : peekOperator least r = .ok seen r₁) (limit room : Nat) (left : Expr) :
    chain limit room least left r = (match seen, room with
      | none, _ => pure left
      | some _, 0 => advance >>= tooDeep limit
      | some op, room + 1 => advance >>= fun _ =>
        side limit room (op.precedence + 1) >>= fun right =>
          chain limit room least (.binary left op right) : Reading σ Expr) r₁ := by
  rw [chain.eq_def, bind_of_ok looked]
  cases seen with
  | none => rfl
  | some op =>
      cases room with
      | zero => rfl
      | succ room =>
          dsimp only
          simp only [side, bind_assoc]

/-- A chain ends where no operator is tight enough. -/
theorem chain_of_none {r r₁ : Reader σ} {least : Nat}
    (seen : peekOperator least r = .ok none r₁) (limit room : Nat) (left : Expr) :
    chain limit room least left r = .ok left r₁ :=
  chain_of_seen seen limit room left

/-- A chain goes on with an operator that is tight enough: it takes a level, its right is a side
that binds more tightly, and the node they form is the left of what follows. -/
theorem chain_of_some {r r₁ r₂ : Reader σ} {least : Nat} {op : BinaryOp} {t : Token}
    (seen : peekOperator least r = .ok (some op) r₁) (taken : advance r₁ = .ok t r₂)
    (limit room : Nat) (left : Expr) :
    chain limit (room + 1) least left r =
      (side limit room (op.precedence + 1) >>= fun right =>
        chain limit room least (.binary left op right)) r₂ := by
  rw [chain_of_seen seen]
  dsimp only
  rw [bind_of_ok taken]

/-- With no level left, a chain that goes on fails at the operator. -/
theorem chain_tooDeep {r r₁ r₂ : Reader σ} {least : Nat} {op : BinaryOp} {t : Token}
    (seen : peekOperator least r = .ok (some op) r₁) (taken : advance r₁ = .ok t r₂)
    (limit : Nat) (left : Expr) :
    chain limit 0 least left r = .error (.tooDeep t.location limit t.span) r₂ := by
  rw [chain_of_seen seen]
  dsimp only
  rw [bind_of_ok taken]
  rfl

/-! ## (4) Successful readings -/

/-- An operand that was read began with a token that may stand where an operand is due. -/
theorem opening_of_operand {limit room : Nat} {r r' : Reader σ} {e : Expr}
    (read : operand limit room r = .ok e r') :
    ∃ t r₁ opening, advance r = .ok t r₁ ∧ t.kind.opening? = some opening := by
  have inverted : ∃ t r₁, advance r = .ok t r₁ ∧ t.kind.opening? ≠ none := by
    cases room <;>
      · rw [operand] at read
        obtain ⟨t, r₁, taken, read⟩ := bind_eq_ok_iff.mp read
        refine ⟨t, r₁, taken, ?_⟩
        intro opens
        simp only [opens] at read
        cases read
  obtain ⟨t, r₁, taken, opens⟩ := inverted
  obtain ⟨opening, opens⟩ := Option.ne_none_iff_exists'.mp opens
  exact ⟨t, r₁, opening, taken, opens⟩

/-- A chain that was read began with a look at the next operator, and took it if there was one. -/
theorem operator_of_chain {limit room least : Nat} {left : Expr} {r r' : Reader σ} {e : Expr}
    (read : chain limit room least left r = .ok e r') :
    (∃ r₁, peekOperator least r = .ok none r₁) ∨
      ∃ op r₁ t r₂, peekOperator least r = .ok (some op) r₁ ∧ advance r₁ = .ok t r₂ := by
  cases room <;>
    · rw [chain] at read
      obtain ⟨seen, r₁, looked, read⟩ := bind_eq_ok_iff.mp read
      cases seen with
      | none => exact .inl ⟨r₁, looked⟩
      | some op =>
          obtain ⟨t, r₂, taken, -⟩ := bind_eq_ok_iff.mp read
          exact .inr ⟨op, r₁, t, r₂, looked, taken⟩

/-- **Induction over what was read.** A property `P` of operands and a property `Q` of chains hold
of every successful reading if each of the five ways to read keeps them: a literal, a group, an
operator before an operand, the end of a chain, and an operator that carries a chain on. -/
theorem success_induction {P : Nat → Reader σ → Expr → Reader σ → Prop}
    {Q : Nat → Nat → Expr → Reader σ → Expr → Reader σ → Prop}
    (literal : ∀ {room r t r₁}, advance r = .ok t r₁ → t.kind.opening? = some .literal →
      P room r (.literal (t.literal.getD .nil)) r₁)
    (group : ∀ {room r t r₁ first r₂ inner r₃ e r'}, advance r = .ok t r₁ →
      t.kind.opening? = some .group → P room r₁ first r₂ → Q room 0 first r₂ inner r₃ →
      closeGroup inner r₃ = .ok e r' → P (room + 1) r e r')
    (unary : ∀ {room r t r₁ op inner r'}, advance r = .ok t r₁ →
      t.kind.opening? = some (.unary op) → P room r₁ inner r' →
      P (room + 1) r (.unary op inner) r')
    (done : ∀ {room least left r r'}, peekOperator least r = .ok none r' →
      Q room least left r left r')
    (more : ∀ {room least left r op r₁ t r₂ first r₃ right r₄ e r'},
      peekOperator least r = .ok (some op) r₁ → advance r₁ = .ok t r₂ → P room r₂ first r₃ →
      Q room (op.precedence + 1) first r₃ right r₄ →
      Q room least (.binary left op right) r₄ e r' → Q (room + 1) least left r e r')
    (limit room : Nat) :
    (∀ {r e r'}, operand limit room r = .ok e r' → P room r e r') ∧
      ∀ {least left r e r'}, chain limit room least left r = .ok e r' →
        Q room least left r e r' := by
  -- Every reading inside has one level less. The induction is strong so that a literal and the end
  -- of a chain, which take no level, are treated once.
  induction room using Nat.strongRecOn with
  | _ room ih =>
    constructor
    · intro r e r' read
      obtain ⟨t, r₁, opening, taken, opens⟩ := opening_of_operand read
      cases opening with
      | literal =>
          rw [operand_literal taken opens] at read
          cases read
          exact literal taken opens
      | group =>
          cases room with
          | zero =>
              rw [operand_tooDeep taken opens (by decide)] at read
              cases read
          | succ room =>
              rw [operand_group taken opens] at read
              obtain ⟨inner, r₃, content, closed⟩ := bind_eq_ok_iff.mp read
              obtain ⟨first, r₂, started, went⟩ := bind_eq_ok_iff.mp content
              obtain ⟨operands, chains⟩ := ih room (Nat.lt_succ_self room)
              exact group taken opens (operands started) (chains went) closed
      | unary op =>
          cases room with
          | zero =>
              rw [operand_tooDeep taken opens (by simp)] at read
              cases read
          | succ room =>
              rw [operand_unary taken opens] at read
              obtain ⟨inner, r₂, started, formed⟩ := bind_eq_ok_iff.mp read
              obtain ⟨rfl, rfl⟩ := pure_eq_ok_iff.mp formed
              exact unary taken opens ((ih room (Nat.lt_succ_self room)).1 started)
    · intro least left r e r' read
      obtain ⟨r₁, seen⟩ | ⟨op, r₁, t, r₂, seen, taken⟩ := operator_of_chain read
      · rw [chain_of_none seen] at read
        cases read
        exact done seen
      · cases room with
        | zero =>
            rw [chain_tooDeep seen taken] at read
            cases read
        | succ room =>
            rw [chain_of_some seen taken] at read
            obtain ⟨right, r₄, beside, went⟩ := bind_eq_ok_iff.mp read
            obtain ⟨first, r₃, started, rest⟩ := bind_eq_ok_iff.mp beside
            obtain ⟨operands, chains⟩ := ih room (Nat.lt_succ_self room)
            exact more seen taken (operands started) (chains rest) (chains went)

/-! ## (5) Contracts -/

/-- **A failure at a token**, which it names. -/
inductive FailsAt (t : Token) : Diagnostic → Prop where
  /-- The token is no operand. -/
  | operand : FailsAt t (.expectedExpression t.location t.span)
  /-- The token does not close the group. -/
  | closing : FailsAt t (.expectedClosingParen t.location t.span)
  /-- No level is left for the token. -/
  | deep (limit : Nat) : FailsAt t (.tooDeep t.location limit t.span)

/-- **An action meets a contract** with an invariant `P`: it keeps the invariant and gives a value
of which `Q` holds, or it fails as `E` says. -/
def Meets (P : Reader σ → Prop) (E : Diagnostic → Reader σ → Prop) (Q : α → Prop)
    (x : Reading σ α) : Prop :=
  ∀ r, P r →
    match x r with
    | .ok a r' => P r' ∧ Q a
    | .error d r' => E d r'

section Contracts

variable {P : Reader σ → Prop} {E : Diagnostic → Reader σ → Prop} {Q : α → Prop} {Q' : β → Prop}

omit [Supply σ] in
/-- An action that does nothing keeps the invariant. -/
theorem meets_pure {a : α} (holds : Q a) : Meets P E Q (pure a) := fun _ kept => ⟨kept, holds⟩

omit [Supply σ] in
/-- A failure that is allowed wherever the invariant holds. -/
theorem meets_throw {d : Diagnostic} (fails : ∀ r, P r → E d r) : Meets P E Q (throw d) := fails

omit [Supply σ] in
/-- Two actions meet a contract together if each does. -/
theorem Meets.bind {x : Reading σ α} {f : α → Reading σ β} (first : Meets P E Q x)
    (second : ∀ a, Q a → Meets P E Q' (f a)) : Meets P E Q' (x >>= f) := by
  intro r kept
  have met := first r kept
  cases done : x r with
  | ok a r₁ =>
      rw [done] at met
      rw [bind_of_ok done]
      exact second a met.2 r₁ met.1
  | error d r₁ =>
      rw [done] at met
      rw [bind_of_error done]
      exact met

/-- **Readings meet the contracts of single actions**: an invariant that is kept by taking a token,
by looking at a kind and by noting a closing token is kept by reading an expression, if it allows to
fail at the tokens taken. -/
theorem meets_expression {T : Token → Prop} (advance : Meets P E T advance)
    (peekKind : Meets P E (fun _ => True) peekKind)
    (closing : ∀ t, Meets P E (fun _ => True) (note (.closing t)))
    (fails : ∀ t, T t → ∀ d, FailsAt t d → ∀ r, P r → E d r) (limit room : Nat) :
    Meets P E (fun _ => True) (expression limit room : Reading σ Expr) := by
  have throws : ∀ {α : Type} (t : Token), T t → ∀ d, FailsAt t d →
      Meets P E (fun _ => True) (throw d : Reading σ α) := fun t taken d named =>
    meets_throw (fails t taken d named)
  have peekOperator : ∀ least, Meets P E (fun _ => True) (peekOperator least) := fun least =>
    peekKind.bind fun kind _ => meets_pure trivial
  have closeGroup : ∀ inner, Meets P E (fun _ => True) (closeGroup inner) := by
    intro inner
    refine advance.bind fun t taken => (closing t).bind fun _ _ => ?_
    split
    · exact meets_pure trivial
    · exact throws t taken _ .closing
  have both : Meets P E (fun _ => True) (operand limit room) ∧
      ∀ least left, Meets P E (fun _ => True) (chain limit room least left) := by
    induction room with
    | zero =>
        constructor
        · rw [operand.eq_def]
          refine advance.bind fun t taken => ?_
          split
          · exact throws t taken _ .operand
          · exact meets_pure trivial
          · exact throws t taken _ (.deep limit)
          · exact throws t taken _ (.deep limit)
        · intro least left
          rw [chain.eq_def]
          refine (peekOperator least).bind fun op _ => ?_
          cases op with
          | none => exact meets_pure trivial
          | some op => exact advance.bind fun t taken => throws t taken _ (.deep limit)
    | succ room ih =>
        obtain ⟨operands, chains⟩ := ih
        constructor
        · rw [operand.eq_def]
          refine advance.bind fun t taken => ?_
          split
          · exact throws t taken _ .operand
          · exact meets_pure trivial
          · exact operands.bind fun first _ => (chains 0 first).bind fun inner _ =>
              closeGroup inner
          · exact operands.bind fun inner _ => meets_pure trivial
        · intro least left
          rw [chain.eq_def]
          refine (peekOperator least).bind fun op _ => ?_
          cases op with
          | none => exact meets_pure trivial
          | some op =>
              exact advance.bind fun t _ => operands.bind fun first _ =>
                (chains _ first).bind fun right _ => chains least _
  exact both.1.bind fun first _ => both.2 0 first

end Contracts

/-- **What a failed reading is about**: a fault among the items ahead, or one of the tokens there or
the end of input, which it names. -/
theorem origin_of_error {items : List Item} {r r' : Reader σ} {d : Diagnostic} {limit room : Nat}
    (holds : r.ahead.Holds items) (failed : expression limit room r = .error d r') :
    .fault d ∈ items ∨ ∃ t, (.token t ∈ items ∨ t.kind = .endOfInput) ∧ FailsAt t d := by
  -- The invariant is that the items still ahead are the last ones of those.
  let P : Reader σ → Prop := fun r => ∃ rest, rest <:+ items ∧ r.ahead.Holds rest
  let T : Token → Prop := fun t => .token t ∈ items ∨ t.kind = .endOfInput
  let E : Diagnostic → Reader σ → Prop := fun d _ =>
    .fault d ∈ items ∨ ∃ t, T t ∧ FailsAt t d
  have advance : Meets P E T advance := by
    rintro r ⟨rest, isLast, holds⟩
    have given := holds.given_pull
    have left : rest.tail <:+ items := (List.tail_suffix rest).trans isLast
    unfold Reading.advance
    dsimp only
    cases rest with
    | nil =>
        rw [given]
        exact ⟨⟨_, left, holds.pull⟩, .inr rfl⟩
    | cons item rest =>
        have member : item ∈ items := isLast.subset List.mem_cons_self
        rw [given, List.head?_cons]
        cases item with
        | token t => exact ⟨⟨_, left, holds.pull⟩, .inl member⟩
        | fault d => exact .inl member
  have peekKind : Meets P E (fun _ => True) peekKind := by
    rintro r ⟨rest, isLast, holds⟩
    exact ⟨⟨rest, isLast, holds.peek⟩, trivial⟩
  have closing : ∀ t, Meets P E (fun _ => True) (note (.closing t)) := by
    rintro t r kept
    exact ⟨kept, trivial⟩
  have fails : ∀ t, T t → ∀ d, FailsAt t d → ∀ r, P r → E d r := fun t taken d named _ _ =>
    .inr ⟨t, taken, named⟩
  have met := meets_expression advance peekKind closing fails limit room r
    ⟨items, items.suffix_refl, holds⟩
  rw [failed] at met
  exact met

end LoxSyntax.Reading
