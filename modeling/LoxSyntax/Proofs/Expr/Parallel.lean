import LoxSyntax.Proofs.Expr.Calls
import LoxSyntax.Proofs.Lexical.Cut
import LoxSyntax.Proofs.Lookahead

/-! # Readers side by side
Two readers that are shown the same tokens do the same, whatever their supplies are made of. The
tokens of the second may stand elsewhere, by a function on spans, and then what fails is reported
there; and the two may part for good where the first one meets a fault of a chosen sort.

1. *Actions side by side*, with a relation of the readers that they keep.
2. *Expressions*, for every relation under which the readers are in step.
3. *Parsers* that are called side by side.
4. *Supplies with the same answers*.
5. *Finite lists ahead*, with a relation of the lists. -/

namespace LoxSyntax

/-- **A token at another place.** -/
def Token.mapSpan (f : Span → Span) (t : Token) : Token := { t with span := f t.span }

@[simp] theorem Token.kind_mapSpan (f : Span → Span) (t : Token) :
    (t.mapSpan f).kind = t.kind := rfl

/-- A diagnostic that stays where it is. -/
@[simp] theorem Diagnostic.mapSpan_id (d : Diagnostic) : d.mapSpan id = d := by
  cases d <;> rfl

variable {σ τ α β γ δ : Type}

namespace Reading

/-! ## (1) Actions side by side -/

/-- **Two actions run side by side** on readers that stand in a relation. Where the first succeeds
the second does too, with a value that belongs to that of the first, and the readers stand in the
relation again. Where the first fails the second does too, with the same diagnostic in its place,
unless the readers may part with it. -/
def Parallel (R : Reader σ → Reader τ → Prop) (f : Span → Span) (out : Diagnostic → Prop)
    (V : α → β → Prop) (x : Reading σ α) (y : Reading τ β) : Prop :=
  ∀ r r', R r r' →
    match x r with
    | .ok a r₁ => ∃ b r₁', y r' = .ok b r₁' ∧ V a b ∧ R r₁ r₁'
    | .error d _ => out d ∨ ∃ r₁', y r' = .error (d.mapSpan f) r₁'

section Rules

variable {R : Reader σ → Reader τ → Prop} {f : Span → Span} {out : Diagnostic → Prop}
  {V : α → β → Prop} {W : γ → δ → Prop}

/-- Values that belong to each other are returned side by side. -/
theorem parallel_pure {a : α} {b : β} (value : V a b) : Parallel R f out V (pure a) (pure b) :=
  fun _ r' related => ⟨b, r', rfl, value, related⟩

/-- Failures are side by side if the second is the first in its place. -/
theorem parallel_throw {d d' : Diagnostic} (same : d' = d.mapSpan f) :
    Parallel R f out V (throw d) (throw d') :=
  fun _ r' _ => .inr ⟨r', by rw [same]; rfl⟩

/-- Actions one after the other run side by side if each two do. -/
theorem Parallel.bind {x : Reading σ α} {y : Reading τ β} {g : α → Reading σ γ}
    {h : β → Reading τ δ} (first : Parallel R f out V x y)
    (second : ∀ a b, V a b → Parallel R f out W (g a) (h b)) :
    Parallel R f out W (x >>= g) (y >>= h) := by
  intro r r' related
  have both := first r r' related
  cases done : x r with
  | ok a r₁ =>
      rw [done] at both
      obtain ⟨b, r₁', done', value, related'⟩ := both
      rw [bind_of_ok done, bind_of_ok done']
      exact second a b value r₁ r₁' related'
  | error d r₁ =>
      rw [done] at both
      rw [bind_of_error done]
      refine both.imp_right ?_
      rintro ⟨r₁', failed⟩
      exact ⟨r₁', bind_of_error failed h⟩

/-- Actions one after the other run side by side if the first ones give the same value and the
second ones run side by side at it. -/
theorem Parallel.bind_eq {x : Reading σ α} {y : Reading τ α} {g : α → Reading σ γ}
    {h : α → Reading τ δ} (first : Parallel R f out Eq x y)
    (second : ∀ a, Parallel R f out W (g a) (h a)) : Parallel R f out W (x >>= g) (y >>= h) :=
  first.bind fun a _ same => same ▸ second a

end Rules

/-! ## (2) Expressions -/

variable [Supply σ] [Supply τ]

/-- **Readers in step** under a relation: they take the same tokens, see the same operators, and
come to the end together. The relation asks nothing of the logs. -/
structure InStep (R : Reader σ → Reader τ → Prop) (f : Span → Span) (out : Diagnostic → Prop) :
    Prop where
  /-- Logs do not matter. -/
  log : ∀ {r r'}, R r r' → ∀ log log', R { r with log := log } { r' with log := log' }
  /-- The same tokens are taken. -/
  advance : Parallel R f out (fun t t' => t' = t.mapSpan f) advance advance
  /-- The same operators are seen. -/
  peekOperator : ∀ least, Parallel R f out Eq (peekOperator least) (peekOperator least)
  /-- The end comes for both, unless they part there. -/
  ends : ∀ {r r'}, R r r' → Parser.isEnd r.ahead.peek.given = Parser.isEnd r'.ahead.peek.given ∨
    ∃ d, r.ahead.peek.given = some (.fault d) ∧ out d

namespace InStep

variable {R : Reader σ → Reader τ → Prop} {f : Span → Span} {out : Diagnostic → Prop}

/-- Readers that are in step stay so when both look ahead. -/
theorem peek (step : InStep R f out) {r : Reader σ} {r' : Reader τ} (related : R r r')
    (log log' : Array Record) :
    R ⟨r.ahead.peek.after, r.last, log⟩ ⟨r'.ahead.peek.after, r'.last, log'⟩ := by
  obtain ⟨seen, r₁', looked, -, related'⟩ := step.peekOperator 0 r r' related
  cases looked
  exact step.log related' log log'

/-- Groups are closed side by side. -/
theorem closeGroup (step : InStep R f out) (inner : Expr) :
    Parallel R f out Eq (closeGroup inner) (closeGroup inner) := by
  refine step.advance.bind ?_
  rintro t t' rfl
  have noted : Parallel R f out (fun _ _ => True) (note (.closing t))
      (note (.closing (t.mapSpan f))) := fun r r' related =>
    ⟨(), _, rfl, trivial, step.log related _ _⟩
  refine noted.bind fun _ _ _ => ?_
  rw [Token.kind_mapSpan]
  split
  · exact parallel_pure rfl
  · exact parallel_throw rfl

/-- **Readers in step read expressions side by side.** -/
theorem expression (step : InStep R f out) (limit room : Nat) :
    Parallel R f out Eq (expression limit room) (expression limit room) := by
  have both : Parallel R f out Eq (operand limit room) (operand limit room) ∧
      ∀ least left, Parallel R f out Eq (chain limit room least left)
        (chain limit room least left) := by
    induction room with
    | zero =>
        constructor
        · rw [operand.eq_def, operand.eq_def]
          refine step.advance.bind ?_
          rintro t t' rfl
          rw [Token.kind_mapSpan]
          cases t.kind.opening? with
          | none => exact parallel_throw rfl
          | some opening =>
              cases opening with
              | literal => exact parallel_pure rfl
              | group => exact parallel_throw rfl
              | unary op => exact parallel_throw rfl
        · intro least left
          rw [chain.eq_def, chain.eq_def]
          refine (step.peekOperator least).bind_eq fun seen => ?_
          cases seen with
          | none => exact parallel_pure rfl
          | some op =>
              refine step.advance.bind ?_
              rintro t t' rfl
              exact parallel_throw rfl
    | succ room ih =>
        obtain ⟨operands, chains⟩ := ih
        have sides : ∀ least, Parallel R f out Eq (side limit room least)
            (side limit room least) := fun least => operands.bind_eq (chains least)
        constructor
        · rw [operand.eq_def, operand.eq_def]
          refine step.advance.bind ?_
          rintro t t' rfl
          rw [Token.kind_mapSpan]
          cases t.kind.opening? with
          | none => exact parallel_throw rfl
          | some opening =>
              cases opening with
              | literal => exact parallel_pure rfl
              | group =>
                  -- A group is read as a side, and then closed.
                  have whole := (sides 0).bind_eq step.closeGroup
                  rw [side, side, bind_assoc, bind_assoc] at whole
                  exact whole
              | unary op =>
                  exact operands.bind_eq fun inner => parallel_pure rfl
        · intro least left
          rw [chain.eq_def, chain.eq_def]
          refine (step.peekOperator least).bind_eq fun seen => ?_
          cases seen with
          | none => exact parallel_pure rfl
          | some op =>
              -- The operator stands where it may, so only the right side and the rest can fail.
              refine step.advance.bind fun _ _ _ => ?_
              have whole := (sides (op.precedence + 1)).bind_eq fun right =>
                chains least (.binary left op right)
              rw [side, side, bind_assoc, bind_assoc] at whole
              exact whole
  exact both.1.bind_eq (both.2 0)

end InStep

end Reading

open Reading

variable [Supply σ] [Supply τ]

/-! ## (3) Parsers -/

namespace Parser

variable {R : Reader σ → Reader τ → Prop} {f : Span → Span} {out : Diagnostic → Prop}

/-- **Parsers that stand side by side**: both have halted, or neither has and their readers stand in
the relation. -/
structure Beside (R : Reader σ → Reader τ → Prop) (p : Parser σ) (p' : Parser τ) : Prop where
  /-- They have halted together. -/
  halted : p'.halted = p.halted
  /-- They have the same limit. -/
  limit : p'.limit = p.limit
  /-- Their readers are related while they run. -/
  related : p.halted = false → R ⟨p.ahead, p.last, #[]⟩ ⟨p'.ahead, p'.last, #[]⟩

/-- A fault that comes first is what a call gives. -/
theorem next_of_fault {p : Parser σ} {d : Diagnostic} (running : p.halted = false)
    (given : p.ahead.peek.given = some (.fault d)) : p.next.given = some (.error d) := by
  have begins : isEnd p.ahead.peek.given = false := by
    rw [given]
    rfl
  have lost : ∃ r, advance p.reader = .error d r := by
    rw [reader, advance]
    simp only [Lookahead.pull_peek given]
    exact ⟨_, rfl⟩
  obtain ⟨r, lost⟩ := lost
  have failed : Reading.operand p.limit p.limit p.reader = .error d r := by
    rw [operand.eq_def, bind_of_error lost]
  exact next_of_error running begins (bind_of_error failed _)

/-- **Calls side by side** give the same, in its place, and leave the parsers side by side, unless
they part with what the first one gives. -/
theorem Beside.next (step : InStep R f out) {p : Parser σ} {p' : Parser τ}
    (beside : Beside R p p') :
    (∃ d, p.next.given = some (.error d) ∧ out d) ∨
      p'.next.given = p.next.given.map (.mapError (.mapSpan f)) ∧
        Beside R p.next.after p'.next.after := by
  have limit : p'.next.after.limit = p.next.after.limit := by
    rw [limit_next, limit_next, beside.limit]
  cases halted : p.halted with
  | true =>
      have halted' := beside.halted.trans halted
      rw [Parser.next, Parser.next, if_pos halted, if_pos halted']
      exact .inr ⟨rfl, beside⟩
  | false =>
      have halted' := beside.halted.trans halted
      have related := beside.related halted
      -- Both look first, and come to the end together, or part with what they look at.
      obtain same | ⟨d, seen, lost⟩ := step.ends related
      · cases ends : isEnd p.ahead.peek.given with
        | true =>
            have call := next_of_isEnd ends
            have call' := next_of_isEnd (same.symm.trans ends)
            refine .inr ⟨by rw [call.1, call'.1]; rfl, call'.2.trans call.2.symm, limit, ?_⟩
            intro running
            cases running.symm.trans call.2
        | false =>
            have ends' := same.symm.trans ends
            have both := step.expression p.limit p.limit p.reader p'.reader (step.peek related _ _)
            cases read : Reading.expression p.limit p.limit p.reader with
            | ok e r =>
                rw [read, ← beside.limit] at both
                obtain ⟨_, r', read', rfl, related'⟩ := both
                have call := next_of_ok halted ends read
                have call' := next_of_ok halted' ends' read'
                refine .inr ⟨by rw [call.1, call'.1]; rfl, ?_, limit, ?_⟩
                · rw [call.2, call'.2]
                  exact beside.halted
                · rw [call.2, call'.2]
                  exact fun _ => step.log related' _ _
            | error d r =>
                rw [read, ← beside.limit] at both
                have given := next_of_error halted ends read
                obtain lost | ⟨r', read'⟩ := both
                · exact .inl ⟨d, given, lost⟩
                have given' := next_of_error halted' ends' read'
                -- After a failure both have halted.
                have stopped := halted_of_error given
                have stopped' := halted_of_error given'
                refine .inr ⟨by rw [given, given']; rfl, stopped'.trans stopped.symm, limit, ?_⟩
                intro running
                cases running.symm.trans stopped
      · exact .inl ⟨d, next_of_fault halted seen, lost⟩

/-- **Parsers side by side give the same**, in its place, as often as they are called, if they do
not part. -/
theorem Beside.results (step : InStep R f out) {p : Parser σ} {p' : Parser τ}
    (beside : Beside R p p') (calls : Nat)
    (stays : ∀ d, some (.error d) ∈ p.results calls → ¬ out d) :
    p'.results calls = (p.results calls).map (Option.map (.mapError (.mapSpan f))) := by
  induction calls generalizing p p' with
  | zero => rfl
  | succ calls ih =>
      rw [Parser.results] at stays
      obtain ⟨d, given, lost⟩ | ⟨given, beside'⟩ := beside.next step
      · exact absurd lost (stays d (given ▸ List.mem_cons_self))
      · have rest := ih beside' fun d member => stays d (List.mem_cons_of_mem _ member)
        rw [Parser.results, Parser.results, given, rest, List.map_cons]

/-- Results that stay where they are. -/
theorem map_mapSpan_id (results : List (Option (Except Diagnostic Expr))) :
    results.map (Option.map (.mapError (.mapSpan id))) = results := by
  have same : (Option.map (Except.mapError (Diagnostic.mapSpan id)) :
      Option (Except Diagnostic Expr) → _) = id := by
    funext result
    match result with
    | none => rfl
    | some (.ok e) => rfl
    | some (.error d) => exact congrArg (fun d => some (Except.error d)) d.mapSpan_id
  rw [same, List.map_id]

end Parser

/-! ## (4) Supplies with the same answers -/

namespace Lookahead.SameAnswers

/-- Readers with the same answers that stand in the same place. -/
def Readers (r : Reader σ) (r' : Reader τ) : Prop :=
  SameAnswers r.ahead r'.ahead ∧ r'.last = r.last

/-- Readers with the same answers are in step. -/
theorem inStep : InStep (Readers (σ := σ) (τ := τ)) id fun _ => False where
  log related _ _ := related
  advance := by
    rintro r r' ⟨same, last⟩
    obtain ⟨given, after⟩ := same.pull
    unfold advance
    simp only [given]
    cases r.ahead.pull.given with
    | none => exact ⟨_, _, rfl, congrArg Token.endOfInput last, after, last⟩
    | some item =>
        cases item with
        | token t => exact ⟨_, _, rfl, rfl, after, rfl⟩
        | fault d => exact .inr ⟨_, congrArg (EStateM.Result.error · _) d.mapSpan_id.symm⟩
  peekOperator least := by
    rintro r r' ⟨same, last⟩
    obtain ⟨given, after⟩ := same.peek
    rw [peekOperator_eq_peek, peekOperator_eq_peek]
    exact ⟨_, _, rfl, congrArg (nextOperator least ·.toList) given.symm, after, last⟩
  ends := by
    rintro r r' ⟨same, -⟩
    exact .inl (congrArg Parser.isEnd same.peek.1.symm)

end Lookahead.SameAnswers

/-- **A parser depends on the answers of its supply alone.** -/
theorem Parser.results_of_answers {s : σ} {s' : τ}
    (same : ∀ calls, Supply.answer s' calls = Supply.answer s calls) (calls : Nat) :
    (ofSupply s').results calls = (ofSupply s).results calls := by
  have beside : Beside Lookahead.SameAnswers.Readers (ofSupply s) (ofSupply s') :=
    ⟨rfl, rfl, fun _ => ⟨⟨rfl, same⟩, rfl⟩⟩
  rw [beside.results Lookahead.SameAnswers.inStep calls fun _ _ => not_false, map_mapSpan_id]

/-! ## (5) Finite lists ahead -/

/-- **Two lists ahead start alike**, each after a token that stood at a span: with the same token,
after which a relation holds again; with the same fault; or with nothing more at all, at the same
place. They may also part, with a fault in the first one alone. -/
inductive StartAlike (f : Span → Span) (out : Diagnostic → Prop)
    (H : List Item → Span → List Item → Span → Prop) :
    List Item → Span → List Item → Span → Prop where
  /-- The same token comes first. -/
  | token {t : Token} {rest rest' : List Item} {last last' : Span}
    (goOn : H rest t.span rest' (f t.span)) :
    StartAlike f out H (.token t :: rest) last (.token (t.mapSpan f) :: rest') last'
  /-- The same fault comes first. -/
  | fault {d : Diagnostic} {rest rest' : List Item} {last last' : Span} :
    StartAlike f out H (.fault d :: rest) last (.fault (d.mapSpan f) :: rest') last'
  /-- The lists part with a fault. -/
  | part {d : Diagnostic} {rest : List Item} {last last' : Span} (lost : out d) :
    StartAlike f out H (.fault d :: rest) last [] last'
  /-- Nothing comes any more. -/
  | ended {last : Span} : StartAlike f out H [] last [] (f last)

/-- Lists that start alike start with the same operator, if with any. -/
theorem StartAlike.nextOperator_eq {f : Span → Span} {out : Diagnostic → Prop}
    {H : List Item → Span → List Item → Span → Prop} {items items' : List Item}
    {last last' : Span} (alike : StartAlike f out H items last items' last') (least : Nat) :
    nextOperator least items = nextOperator least items' := by
  cases alike <;> rfl

/-- Readers with lists ahead that are related. -/
def Ahead (H : List Item → Span → List Item → Span → Prop) (r : Reader σ) (r' : Reader τ) : Prop :=
  ∃ items items', r.ahead.Holds items ∧ r'.ahead.Holds items' ∧ H items r.last items' r'.last

/-- **Readers are in step** if the lists ahead always start alike. -/
theorem inStep_ahead {f : Span → Span} {out : Diagnostic → Prop}
    {H : List Item → Span → List Item → Span → Prop}
    (alike : ∀ {items last items' last'}, H items last items' last' →
      StartAlike f out H items last items' last') :
    InStep (Ahead (σ := σ) (τ := τ) H) f out where
  log related _ _ := related
  advance := by
    rintro r r' ⟨items, items', holds, holds', related⟩
    have given := holds.given_pull
    have given' := holds'.given_pull
    have after := holds.pull
    have after' := holds'.pull
    have starts := alike related
    unfold advance
    simp only [given, given']
    -- Starting alike is about any two places, so those of the readers are forgotten.
    generalize r.last = last at related starts
    generalize r'.last = last' at related starts
    cases starts with
    | token goOn => exact ⟨_, _, rfl, rfl, _, _, after, after', goOn⟩
    | fault => exact .inr ⟨_, rfl⟩
    | part lost => exact .inl lost
    | ended => exact ⟨_, _, rfl, rfl, [], [], after, after', related⟩
  peekOperator least := by
    rintro r r' ⟨items, items', holds, holds', related⟩
    obtain ⟨r₁, seen, ahead, last⟩ := peekOperator_eq holds least
    obtain ⟨r₁', seen', ahead', last'⟩ := peekOperator_eq holds' least
    rw [seen, seen', (alike related).nextOperator_eq least]
    exact ⟨_, r₁', rfl, rfl, items, items', ahead, ahead', by rw [last, last']; exact related⟩
  ends := by
    rintro r r' ⟨items, items', holds, holds', related⟩
    rw [holds.given_peek, holds'.given_peek]
    have starts := alike related
    generalize r'.last = last' at starts
    cases starts with
    | token goOn => exact .inl rfl
    | fault => exact .inl rfl
    | part lost => exact .inr ⟨_, rfl, lost⟩
    | ended => exact .inl rfl

end LoxSyntax
