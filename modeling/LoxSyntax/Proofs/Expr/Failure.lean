import LoxSyntax.Proofs.Expr.Completeness
import LoxSyntax.Proofs.Expr.Position

/-! # Where reading fails
A reading that fails has a token at which it fails, or a fault, or no level left. Of the tokens read
until then some are a complete tree and the others the beginning of one.

1. *Failed readings*: `failure_induction` turns a property that each way to fail keeps into one of
all readings that fail, on every supply.
2. *Beginnings of trees*: over a list of tokens up to an end of input, a reading that fails for want
of no level fails at a blocked token, and some tree begins with the tokens before that one.
3. *Calls*: a parser reports the first token that cannot stand where it does. -/

namespace LoxSyntax

open Reading

variable {σ : Type} [Supply σ]

namespace Reading

/-! ## (1) Failed readings -/

/-- Two actions fail together when the first fails, or the second where the first one ended. -/
theorem bind_eq_error_iff {σ α β : Type} {x : Reading σ α} {f : α → Reading σ β} {r r' : Reader σ}
    {d : Diagnostic} :
    (x >>= f) r = .error d r' ↔
      x r = .error d r' ∨ ∃ a r₁, x r = .ok a r₁ ∧ f a r₁ = .error d r' := by
  cases first : x r with
  | ok a r₁ =>
      rw [bind_of_ok first]
      constructor
      · intro failed
        exact .inr ⟨a, r₁, rfl, failed⟩
      · rintro (failed | ⟨a', r₁', same, failed⟩)
        · cases failed
        · cases same
          exact failed
  | error d₁ r₁ =>
      rw [bind_of_error first]
      constructor
      · intro same
        cases same
        exact .inl rfl
      · rintro (same | ⟨a, r₁', same, -⟩)
        · cases same
          rfl
        · cases same

/-- A group that did not close has another token where the closing parenthesis is due. -/
theorem closeGroup_eq_error {r r' : Reader σ} {inner : Expr} {d : Diagnostic}
    (failed : closeGroup inner r = .error d r') :
    advance r = .error d r' ∨ ∃ t r₁, advance r = .ok t r₁ ∧ t.kind ≠ .rightParen ∧
      d = .expectedClosingParen t.location t.span ∧ r'.ahead = r₁.ahead := by
  rw [closeGroup] at failed
  rcases bind_eq_error_iff.mp failed with failed | ⟨t, r₁, taken, failed⟩
  · exact .inl failed
  rcases bind_eq_error_iff.mp failed with failed | ⟨_, r₂, noted, failed⟩
  · cases failed
  cases noted
  split at failed
  · cases failed
  · next kind =>
      cases failed
      exact .inr ⟨t, r₁, taken, kind, rfl, rfl⟩

/-- An operand that was not read fails with its first token, or after it. -/
theorem advance_of_operand {limit room : Nat} {r r' : Reader σ} {d : Diagnostic}
    (failed : operand limit room r = .error d r') :
    advance r = .error d r' ∨ ∃ t r₁, advance r = .ok t r₁ := by
  rw [operand.eq_def] at failed
  rcases bind_eq_error_iff.mp failed with failed | ⟨t, r₁, taken, -⟩
  · exact .inl failed
  · exact .inr ⟨t, r₁, taken⟩

/-- A token that opens no operand is a failure where one is due. -/
theorem operand_unexpected {r r₁ : Reader σ} {t : Token} (taken : advance r = .ok t r₁)
    (opens : t.kind.opening? = none) (limit room : Nat) :
    operand limit room r = .error (.expectedExpression t.location t.span) r₁ := by
  rw [operand.eq_def, bind_of_ok taken]
  simp only [opens]
  rfl

/-- A chain that was not read saw an operator. -/
theorem operator_of_failed_chain {limit room least : Nat} {left : Expr} {r r' : Reader σ}
    {d : Diagnostic} (failed : chain limit room least left r = .error d r') :
    ∃ op r₁, peekOperator least r = .ok (some op) r₁ ∧
      (advance r₁ = .error d r' ∨ ∃ t r₂, advance r₁ = .ok t r₂) := by
  rw [chain.eq_def] at failed
  rcases bind_eq_error_iff.mp failed with failed | ⟨seen, r₁, looked, failed⟩
  · cases failed
  · cases seen with
    | none => cases failed
    | some op =>
        refine ⟨op, r₁, looked, ?_⟩
        rcases bind_eq_error_iff.mp failed with failed | ⟨t, r₂, taken, -⟩
        · exact .inl failed
        · exact .inr ⟨t, r₂, taken⟩

/-- **Induction over what could not be read.** A property `P` of operands, a property `S` of sides
and a property `Q` of chains hold of every failed reading if each way to fail keeps them. What was
read before the failure is known to have been read. -/
theorem failure_induction {P : Nat → Reader σ → Diagnostic → Reader σ → Prop}
    {S : Nat → Nat → Reader σ → Diagnostic → Reader σ → Prop}
    {Q : Nat → Nat → Expr → Reader σ → Diagnostic → Reader σ → Prop} (limit : Nat)
    (fault : ∀ {room r d r'}, advance r = .error d r' → P room r d r')
    (unexpected : ∀ {room r t r'}, advance r = .ok t r' → t.kind.opening? = none →
      P room r (.expectedExpression t.location t.span) r')
    (deep : ∀ {r t r'}, advance r = .ok t r' → P 0 r (.tooDeep t.location limit t.span) r')
    (group : ∀ {room r t r₁ d r'}, advance r = .ok t r₁ → t.kind.opening? = some .group →
      S room 0 r₁ d r' → P (room + 1) r d r')
    (closing : ∀ {room r t r₁ inner r₂ d r'}, advance r = .ok t r₁ →
      t.kind.opening? = some .group → side limit room 0 r₁ = .ok inner r₂ →
      closeGroup inner r₂ = .error d r' → P (room + 1) r d r')
    (unary : ∀ {room r t r₁ op d r'}, advance r = .ok t r₁ →
      t.kind.opening? = some (.unary op) → P room r₁ d r' → P (room + 1) r d r')
    (first : ∀ {room least r d r'}, P room r d r' → S room least r d r')
    (rest : ∀ {room least r left r₁ d r'}, operand limit room r = .ok left r₁ →
      Q room least left r₁ d r' → S room least r d r')
    (lost : ∀ {room least left r op r₁ d r'}, peekOperator least r = .ok (some op) r₁ →
      advance r₁ = .error d r' → Q room least left r d r')
    (deepOperator : ∀ {least left r op r₁ t r'}, peekOperator least r = .ok (some op) r₁ →
      advance r₁ = .ok t r' → Q 0 least left r (.tooDeep t.location limit t.span) r')
    (right : ∀ {room least left r op r₁ t r₂ d r'}, peekOperator least r = .ok (some op) r₁ →
      advance r₁ = .ok t r₂ → S room (op.precedence + 1) r₂ d r' → Q (room + 1) least left r d r')
    (more : ∀ {room least left r op r₁ t r₂ right r₃ d r'},
      peekOperator least r = .ok (some op) r₁ → advance r₁ = .ok t r₂ →
      side limit room (op.precedence + 1) r₂ = .ok right r₃ →
      Q room least (.binary left op right) r₃ d r' → Q (room + 1) least left r d r')
    (room : Nat) :
    (∀ {r d r'}, operand limit room r = .error d r' → P room r d r') ∧
    (∀ {least r d r'}, side limit room least r = .error d r' → S room least r d r') ∧
    ∀ {least left r d r'}, chain limit room least left r = .error d r' →
      Q room least left r d r' := by
  induction room using Nat.strongRecOn with
  | _ room ih =>
    have operands : ∀ {r d r'}, operand limit room r = .error d r' → P room r d r' := by
      intro r d r' failed
      obtain lost | ⟨t, r₁, taken⟩ := advance_of_operand failed
      · exact fault lost
      cases opens : t.kind.opening? with
      | none =>
          rw [operand_unexpected taken opens] at failed
          cases failed
          exact unexpected taken opens
      | some opening =>
          cases opening with
          | literal =>
              rw [operand_literal taken opens] at failed
              cases failed
          | group =>
              cases room with
              | zero =>
                  rw [operand_tooDeep taken opens (by decide)] at failed
                  cases failed
                  exact deep taken
              | succ room =>
                  rw [operand_group taken opens] at failed
                  obtain ⟨-, sides, -⟩ := ih room (Nat.lt_succ_self room)
                  rcases bind_eq_error_iff.mp failed with failed | ⟨inner, r₂, content, failed⟩
                  · exact group taken opens (sides failed)
                  · exact closing taken opens content failed
          | unary op =>
              cases room with
              | zero =>
                  rw [operand_tooDeep taken opens (by simp)] at failed
                  cases failed
                  exact deep taken
              | succ room =>
                  rw [operand_unary taken opens] at failed
                  obtain ⟨operands, -⟩ := ih room (Nat.lt_succ_self room)
                  rcases bind_eq_error_iff.mp failed with failed | ⟨inner, r₂, started, formed⟩
                  · exact unary taken opens (operands failed)
                  · cases formed
    have chains : ∀ {least left r d r'}, chain limit room least left r = .error d r' →
        Q room least left r d r' := by
      intro least left r d r' failed
      obtain ⟨op, r₁, seen, missing | ⟨t, r₂, taken⟩⟩ := operator_of_failed_chain failed
      · exact lost seen missing
      cases room with
      | zero =>
          rw [chain_tooDeep seen taken] at failed
          cases failed
          exact deepOperator seen taken
      | succ room =>
          rw [chain_of_some seen taken] at failed
          obtain ⟨-, sides, chains⟩ := ih room (Nat.lt_succ_self room)
          rcases bind_eq_error_iff.mp failed with failed | ⟨beside, r₃, formed, failed⟩
          · exact right seen taken (sides failed)
          · exact more seen taken formed (chains failed)
    refine ⟨operands, ?_, chains⟩
    intro least r d r' failed
    rcases bind_eq_error_iff.mp failed with failed | ⟨left, r₁, started, failed⟩
    · exact first (operands failed)
    · exact rest started (chains failed)

/-! ## (2) Beginnings of trees -/

omit [Supply σ] in
/-- Items that are all tokens begin with tokens and go on with tokens. -/
theorem tokens_eq_append {ts : List Token} {rest : List Item} (us : List Token)
    (split : ts.map Item.token = us.map .token ++ rest) :
    ∃ left, ts = us ++ left ∧ rest = left.map .token := by
  obtain ⟨us', left, rfl, same, rfl⟩ := List.map_eq_append_iff.mp split
  rw [List.map_inj_right fun _ _ => Item.token.inj] at same
  exact ⟨left, by rw [same], rfl⟩

/-- An end of input is among the tokens. -/
def HasEnd (ts : List Token) : Prop := ∃ t ∈ ts, t.kind = .endOfInput

/-- Where an end of input is still to come there is a next token, which can be taken. -/
theorem HasEnd.exists_advance {ts : List Token} (ends : HasEnd ts) {r : Reader σ}
    (holds : r.ahead.Holds (ts.map .token)) :
    ∃ t rest r', ts = t :: rest ∧ advance r = .ok t r' ∧ r'.ahead.Holds (rest.map .token) := by
  obtain ⟨last, member, -⟩ := ends
  cases ts with
  | nil => cases member
  | cons t rest =>
      rw [List.map_cons] at holds
      obtain ⟨r', taken, holds', -⟩ := advance_token holds
      exact ⟨t, rest, r', rfl, taken, holds'⟩

/-- A token that was taken is the first of the tokens ahead. -/
theorem HasEnd.eq_cons {ts : List Token} (ends : HasEnd ts) {r r' : Reader σ} {t : Token}
    (holds : r.ahead.Holds (ts.map .token)) (taken : advance r = .ok t r') :
    ∃ rest, ts = t :: rest ∧ r'.ahead.Holds (rest.map .token) := by
  obtain ⟨t', rest, r₁, rfl, taken', holds'⟩ := ends.exists_advance holds
  rw [taken] at taken'
  cases taken'
  exact ⟨rest, rfl, holds'⟩

/-- The end of input comes after a token of another kind. -/
theorem HasEnd.tail {t : Token} {ts : List Token} (ends : HasEnd (t :: ts))
    (kind : t.kind ≠ .endOfInput) : HasEnd ts := by
  obtain ⟨last, member, isEnd⟩ := ends
  rcases List.mem_cons.mp member with rfl | later
  · exact absurd isEnd kind
  · exact ⟨last, later, isEnd⟩

/-- The end of input comes after what spells a tree. -/
theorem HasEnd.of_spells {before ts : List Token} (ends : HasEnd (before ++ ts)) {e : Expr}
    (spells : e.Spells before) : HasEnd ts := by
  obtain ⟨last, member, isEnd⟩ := ends
  have others := Expr.Position.kind_ne_endOfInput_of_walk (Expr.Position.walk_of_spells spells 0)
  rcases List.mem_append.mp member with earlier | later
  · exact absurd isEnd (others last earlier)
  · exact ⟨last, later, isEnd⟩

/-- **A reading that comes after some tokens is stuck** at one of those ahead: that one is blocked,
and a tree of a level of the grammar begins with the tokens before it. -/
def Stuck (level : Nat) (before ts : List Token) (d : Diagnostic) (r' : Reader σ) : Prop :=
  ∃ taken t rest, ts = taken ++ t :: rest ∧ r'.ahead.Holds (rest.map .token) ∧
    Expr.Blocked (before ++ taken) t d ∧ ∃ more e, Expr.Derives level (before ++ taken ++ more) e

/-- What is stuck inside a tree is stuck in the tree around it. -/
theorem Stuck.within {inner outer : Nat} {before ts : List Token} {d : Diagnostic}
    {r' : Reader σ} (us : List Token) (stuck : Stuck inner [] ts d r')
    (due : Expr.KeepsDue (before ++ us))
    (wraps : ∀ inside e, Expr.Derives inner inside e →
      ∃ more e', Expr.Derives outer (before ++ us ++ inside ++ more) e') :
    Stuck outer before (us ++ ts) d r' := by
  obtain ⟨taken, t, rest, rfl, holds, blocked, more, e, derives⟩ := stuck
  obtain ⟨more', e', derives'⟩ := wraps _ e derives
  refine ⟨us ++ taken, t, rest, (List.append_assoc ..).symm, holds, ?_, more ++ more', e', ?_⟩
  · rw [← List.append_assoc]
    exact blocked.append due
  · simpa only [List.nil_append, List.append_assoc] using derives'

/-- Tokens that were read may be counted among those before. -/
theorem Stuck.of_read {level : Nat} {ts : List Token} {d : Diagnostic} {r' : Reader σ}
    (before us : List Token) (stuck : Stuck level (before ++ us) ts d r') :
    Stuck level before (us ++ ts) d r' := by
  obtain ⟨taken, t, rest, rfl, holds, blocked, more, e, derives⟩ := stuck
  rw [List.append_assoc before us taken] at blocked derives
  exact ⟨us ++ taken, t, rest, (List.append_assoc ..).symm, holds, blocked, more, e, derives⟩

/-- **An operand, or a side, that was not read** for want of no level is stuck, over tokens with an
end of input. -/
def Sticks (level : Nat) (r : Reader σ) (d : Diagnostic) (r' : Reader σ) : Prop :=
  ∀ ts, HasEnd ts → r.ahead.Holds (ts.map .token) → Stuck level [] ts d r'

/-- **A chain that was not read** for want of no level is stuck after its left side, if that
fitted. -/
def SticksAfter (least : Nat) (left : Expr) (r : Reader σ) (d : Diagnostic) (r' : Reader σ) :
    Prop :=
  ∀ ls ts, HasEnd ts → r.ahead.Holds (ts.map .token) → left.Spells ls →
    Fits least left (ts.map .token) → Stuck least ls ts d r'

/-- No token at all leaves an operand due that was due. -/
theorem keepsDue_nil : Expr.KeepsDue [] := fun groups => ⟨groups, rfl⟩

/-- A token that opens no operand blocks where one is due. -/
theorem sticks_of_unexpected {level : Nat} (le : level ≤ Expr.unaryLevel) {r r' : Reader σ}
    {t : Token} (taken : advance r = .ok t r') (opens : t.kind.opening? = none) :
    Sticks level r (.expectedExpression t.location t.span) r' := by
  intro ts ends holds
  obtain ⟨rest, rfl, holds'⟩ := ends.eq_cons holds taken
  have completed : Expr.Derives level [.fixed .nilWord .origin] (.literal .nil) :=
    (Expr.Derives.literal rfl).of_le (Nat.le_succ_of_le le)
  exact ⟨[], t, rest, rfl, holds', .operand keepsDue_nil opens, _, _, completed⟩

/-- A side that is stuck in a group is stuck in an operand. -/
theorem Sticks.group {r r₁ r' : Reader σ} {t : Token} {d : Diagnostic}
    (taken : advance r = .ok t r₁) (opens : t.kind.opening? = some .group)
    (inside : Sticks 0 r₁ d r') : Sticks Expr.unaryLevel r d r' := by
  intro ts ends holds
  obtain ⟨rest, rfl, holds'⟩ := ends.eq_cons holds taken
  have kind : t.kind = .leftParen := Kind.opening?_eq_group_iff.mp opens
  have stuck := inside rest (ends.tail (by rw [kind]; decide)) holds'
  refine stuck.within [t] (Expr.keepsDue_leftParen kind) ?_
  intro content e derives
  obtain ⟨spells, shaped, -⟩ := derives.spells
  have closes : (Token.fixed .rightParen .origin).kind = .rightParen := rfl
  have group := Expr.Derives.group kind (Expr.derives_iff.mpr ⟨spells, shaped⟩) closes
  exact ⟨[_], _, group.of_le (by decide)⟩

/-- A token other than a closing parenthesis blocks where a group holds a whole side. -/
theorem sticks_of_closing {limit room : Nat} {r r₁ r₂ r' : Reader σ} {t : Token} {inner : Expr}
    {d : Diagnostic} (taken : advance r = .ok t r₁) (opens : t.kind.opening? = some .group)
    (content : side limit room 0 r₁ = .ok inner r₂) (failed : closeGroup inner r₂ = .error d r') :
    Sticks Expr.unaryLevel r d r' := by
  intro ts ends holds
  obtain ⟨items, rfl, holds'⟩ := ends.eq_cons holds taken
  have kind : t.kind = .leftParen := Kind.opening?_eq_group_iff.mp opens
  -- The side took a spelling, and what comes after it is a list of tokens again.
  rw [← expression_eq_side] at content
  obtain ⟨inside, rest, split, holds'', spells, shaped, stops⟩ :=
    spells_of_expression holds' content
  obtain ⟨rest, rfl, rfl⟩ := tokens_eq_append _ split
  have ends' : HasEnd rest := (ends.tail (by rw [kind]; decide)).of_spells spells
  have derives : Expr.Derives 1 inside inner := Expr.derives_iff.mpr ⟨spells, shaped⟩
  obtain lost | ⟨next, r₃, taken', other, rfl, ahead⟩ := closeGroup_eq_error failed
  · obtain ⟨next, rest', r₃, -, taken', -⟩ := ends'.exists_advance holds''
    rw [lost] at taken'
    cases taken'
  obtain ⟨rest', rfl, holds₃⟩ := ends'.eq_cons holds'' taken'
  have joins : BinaryOp.ofKind? next.kind = none := by
    simpa [nextOperator, kindOf, Option.eq_none_iff_forall_ne_some] using stops
  refine ⟨t :: inside, next, rest', rfl, ahead ▸ holds₃, ?_, [.fixed .rightParen .origin],
    .group inner, (Expr.Derives.group kind derives rfl).of_le (by decide)⟩
  exact .closing keepsDue_nil rfl kind derives other joins

/-- An operand that is stuck is stuck under an operator. -/
theorem Sticks.unary {r r₁ r' : Reader σ} {t : Token} {op : UnaryOp} {d : Diagnostic}
    (taken : advance r = .ok t r₁) (opens : t.kind.opening? = some (.unary op))
    (inside : Sticks Expr.unaryLevel r₁ d r') : Sticks Expr.unaryLevel r d r' := by
  intro ts ends holds
  obtain ⟨rest, rfl, holds'⟩ := ends.eq_cons holds taken
  have kind : t.kind = op.kind := Kind.opening?_eq_unary_iff.mp opens
  have stuck := inside rest (ends.tail (by rw [kind]; cases op <;> decide)) holds'
  refine stuck.within [t] (Expr.keepsDue_unary kind) ?_
  intro operand e derives
  refine ⟨[], .unary op e, ?_⟩
  rw [List.append_nil]
  exact .unary kind derives

/-- An operand that is stuck is stuck in a side. -/
theorem Sticks.first {least : Nat} (le : least ≤ Expr.unaryLevel) {r r' : Reader σ}
    {d : Diagnostic} (sticks : Sticks Expr.unaryLevel r d r') : Sticks least r d r' := by
  intro ts ends holds
  refine (sticks ts ends holds).within [] keepsDue_nil ?_
  intro inside e derives
  refine ⟨[], e, ?_⟩
  rw [List.append_nil]
  exact derives.of_le le

/-- A chain that is stuck after its operand is stuck in a side. -/
theorem SticksAfter.rest {limit room least : Nat} {r r₁ r' : Reader σ} {left : Expr}
    {d : Diagnostic} (started : operand limit room r = .ok left r₁)
    (sticks : SticksAfter least left r₁ d r') : Sticks least r d r' := by
  intro ts ends holds
  obtain ⟨ls, rest, split, holds', spells, shaped, top⟩ :=
    (sound_of_read (σ := σ) limit room).1 started _ holds
  obtain ⟨rest, rfl, rfl⟩ := tokens_eq_append _ split
  have stuck := sticks ls rest (ends.of_spells spells) holds' spells (.of_operand shaped top)
  exact Stuck.of_read [] ls stuck

/-- A left side that fits before an operator is derived by the level of the operator. -/
theorem Fits.derives {least : Nat} {left : Expr} {items : List Item} (fits : Fits least left items)
    {ls : List Token} (spells : left.Spells ls) {op : BinaryOp}
    (next : nextOperator least items = some op) : Expr.Derives op.precedence ls left := by
  have le := Nat.le_of_lt (Expr.precedence_lt_unaryLevel op)
  exact spells.derives fits.shaped le (fits.precedence_le next)

/-- The operator of a chain that goes on, among tokens. -/
theorem operator_of_tokens {least : Nat} {r r₁ : Reader σ} {op : BinaryOp} {ts : List Token}
    (holds : r.ahead.Holds (ts.map .token)) (seen : peekOperator least r = .ok (some op) r₁) :
    ∃ t rest r₂, ts = t :: rest ∧ t.kind = op.kind ∧ nextOperator least (ts.map .token) = some op ∧
      least ≤ op.precedence ∧ advance r₁ = .ok t r₂ ∧ r₂.ahead.Holds (rest.map .token) := by
  obtain ⟨r₁', seen', holds₁, -⟩ := peekOperator_eq holds least
  rw [seen] at seen'
  obtain ⟨next, rfl⟩ := EStateM.Result.ok.inj seen'
  obtain ⟨t, items, split, kind, tight⟩ := nextOperator_eq_some_iff.mp next.symm
  obtain ⟨rest, rfl, rfl⟩ := tokens_eq_append [t] split
  obtain ⟨r₂, taken, holds₂, -⟩ := advance_token holds₁
  exact ⟨t, rest, r₂, rfl, kind, next.symm, tight, taken, holds₂⟩

/-- A right side that is stuck is stuck after its left side and the operator. -/
theorem Sticks.right {least : Nat} {left : Expr} {r r₁ r₂ r' : Reader σ} {op : BinaryOp}
    {t : Token} {d : Diagnostic} (seen : peekOperator least r = .ok (some op) r₁)
    (taken : advance r₁ = .ok t r₂) (beside : Sticks (op.precedence + 1) r₂ d r') :
    SticksAfter least left r d r' := by
  intro ls ts ends holds spells fits
  obtain ⟨t', rest, r₂', rfl, kind, next, tight, taken', holds'⟩ := operator_of_tokens holds seen
  rw [taken] at taken'
  cases taken'
  have stuck := beside rest (ends.tail (by rw [kind]; cases op <;> decide)) holds'
  refine stuck.within [t] (Expr.keepsDue_binary spells kind) ?_
  intro inside e derives
  have derivesLeft := fits.derives spells next
  refine ⟨[], .binary left op e, ?_⟩
  rw [List.append_nil, List.append_assoc]
  exact (Expr.Derives.binary derivesLeft kind derives).of_le tight

/-- What comes after a right side that was read is stuck after the node that it completes. -/
theorem SticksAfter.more {limit room least : Nat} {left right : Expr} {op : BinaryOp} {t : Token}
    {r r₁ r₂ r₃ r' : Reader σ} {d : Diagnostic}
    (seen : peekOperator least r = .ok (some op) r₁) (taken : advance r₁ = .ok t r₂)
    (beside : side limit room (op.precedence + 1) r₂ = .ok right r₃)
    (chain : SticksAfter least (.binary left op right) r₃ d r') :
    SticksAfter least left r d r' := by
  intro ls ts ends holds spells fits
  obtain ⟨t', items, r₂', rfl, kind, next, tight, taken', holds'⟩ := operator_of_tokens holds seen
  rw [taken] at taken'
  cases taken'
  obtain ⟨first, r₂', started, went⟩ := bind_eq_ok_iff.mp beside
  obtain ⟨operands, chains⟩ := sound_of_read (σ := σ) limit room
  obtain ⟨rs, rest, split, holds₃, spellsRight, fitsRight, ended⟩ :=
    (operands started).chain (chains went) holds'
  obtain ⟨rest, rfl, rfl⟩ := tokens_eq_append _ split
  have ends' : HasEnd rest :=
    (ends.tail (by rw [kind]; cases op <;> decide)).of_spells spellsRight
  have stuck := chain (ls ++ t :: rs) rest ends' holds₃ (.binary spells kind spellsRight)
    (fits.binary next fitsRight ended)
  exact Stuck.of_read ls (t :: rs) stuck

/-- Whether a diagnostic says that levels are lacking. -/
def LacksLevels (d : Diagnostic) : Prop := ∃ found limit span, d = .tooDeep found limit span

/-- **What was not read** for want of no level is stuck. -/
theorem stuck_of_failed (limit room : Nat) :
    (∀ {r : Reader σ} {d r'}, operand limit room r = .error d r' → ¬ LacksLevels d →
      Sticks Expr.unaryLevel r d r') ∧
    (∀ {least} {r : Reader σ} {d r'}, side limit room least r = .error d r' →
      ¬ LacksLevels d → least ≤ Expr.unaryLevel → Sticks least r d r') ∧
    ∀ {least left} {r : Reader σ} {d r'}, chain limit room least left r = .error d r' →
      ¬ LacksLevels d → SticksAfter least left r d r' := by
  apply failure_induction
    (P := fun _ (r : Reader σ) d r' => ¬ LacksLevels d → Sticks Expr.unaryLevel r d r')
    (S := fun _ least (r : Reader σ) d r' =>
      ¬ LacksLevels d → least ≤ Expr.unaryLevel → Sticks least r d r')
    (Q := fun _ least left (r : Reader σ) d r' => ¬ LacksLevels d → SticksAfter least left r d r')
  case fault =>
    intro room r d r' failed _ ts ends holds
    obtain ⟨t, rest, r₁, -, taken, -⟩ := ends.exists_advance holds
    rw [failed] at taken
    cases taken
  case unexpected =>
    intro room r t r' taken opens _
    exact sticks_of_unexpected (Nat.le_refl _) taken opens
  case deep =>
    intro r t r' taken enough
    exact absurd ⟨_, _, _, rfl⟩ enough
  case group =>
    intro room r t r₁ d r' taken opens inside enough
    exact (inside enough (Nat.zero_le _)).group taken opens
  case closing =>
    intro room r t r₁ inner r₂ d r' taken opens content failed _
    exact sticks_of_closing taken opens content failed
  case unary =>
    intro room r t r₁ op d r' taken opens inside enough
    exact (inside enough).unary taken opens
  case first =>
    intro room least r d r' first enough le
    exact (first enough).first le
  case rest =>
    intro room least r left r₁ d r' started chain enough _
    exact (chain enough).rest started
  case lost =>
    intro room least left r op r₁ d r' seen failed _ ls ts ends holds _ _
    obtain ⟨t, rest, r₂, -, -, -, -, taken, -⟩ := operator_of_tokens holds seen
    rw [failed] at taken
    cases taken
  case deepOperator =>
    intro least left r op r₁ t r' seen taken enough
    exact absurd ⟨_, _, _, rfl⟩ enough
  case right =>
    intro room least left r op r₁ t r₂ d r' seen taken beside enough
    exact (beside enough (Expr.precedence_lt_unaryLevel op)).right seen taken
  case more =>
    intro room least left r op r₁ t r₂ right r₃ d r' seen taken beside chain enough
    exact (chain enough).more seen taken beside

/-- An expression that was not read for want of no level fails at a blocked token, before which the
tokens are a beginning of an expression. -/
theorem blocked_of_expression {limit room : Nat} {r r' : Reader σ} {d : Diagnostic}
    {ts : List Token} (ends : HasEnd ts) (holds : r.ahead.Holds (ts.map .token))
    (failed : expression limit room r = .error d r') (enough : ¬ LacksLevels d) :
    ∃ taken t rest, ts = taken ++ t :: rest ∧ r'.ahead.Holds (rest.map .token) ∧
      Expr.Blocked taken t d ∧ Expr.IsViable taken := by
  rw [expression_eq_side] at failed
  have sticks := (stuck_of_failed limit room).2.1 failed enough (Nat.zero_le _)
  obtain ⟨taken, t, rest, split, holds', blocked, more, e, derives⟩ := sticks ts ends holds
  obtain ⟨spells, shaped, -⟩ := derives.spells
  exact ⟨taken, t, rest, split, holds', blocked, more, e, Expr.derives_iff.mpr ⟨spells, shaped⟩⟩

end Reading

/-! ## (3) Calls -/

namespace Parser

/-- Where a call of a parser that still runs begins, over tokens with an end of input: before the
last of the tokens, up to which some were taken. -/
theorem holds_afterCalls {p : Parser σ} {ts : List Token} (ends : HasEnd ts)
    (holds : p.ahead.Holds (ts.map .token)) {calls : Nat}
    (running : (p.afterCalls calls).halted = false) :
    ∃ before left, ts = before ++ left ∧ HasEnd left ∧
      (p.afterCalls calls).ahead.Holds (left.map .token) := by
  induction calls generalizing p ts with
  | zero => exact ⟨[], ts, rfl, ends, holds⟩
  | succ calls ih =>
      by_cases given : ∃ e, p.next.given = some (.ok e)
      · obtain ⟨e, given⟩ := given
        obtain ⟨taken, rest, split, holds', spells, -⟩ := spells_of_next holds given
        obtain ⟨rest, rfl, rfl⟩ := tokens_eq_append _ split
        obtain ⟨before, left, rfl, ends', holds''⟩ := ih (ends.of_spells spells) holds' running
        exact ⟨taken ++ before, left, (List.append_assoc ..).symm, ends', holds''⟩
      · -- A parser that gave no expression does not run any more.
        have halted := halted_after_next fun e same => given ⟨e, same⟩
        rw [afterCalls, halted_afterCalls halted] at running
        cases running

/-- **Failures are about the first impossible token.** Over tokens with an end of input, a call that
fails, and not for want of levels, has taken tokens that some expression begins with, and failed at
the token `t` after those, with which none goes on. It says that an operand is expected exactly if
one is due there, and that a closing parenthesis is exactly if a complete expression stands there in
an open group; and it names the token and where that stands. -/
theorem given_error_of_blocked {supply : σ} {tokens : List Token}
    (ends : ∃ t ∈ tokens, t.kind = .endOfInput) (gives : Supply.Gives supply (tokens.map .token))
    {calls : Nat} {d : Diagnostic}
    (given : ((ofSupply supply).afterCalls calls).next.given = some (.error d))
    (enough : ∀ found limit span, d ≠ .tooDeep found limit span) :
    ∃ before taken t rest, tokens = before ++ (taken ++ t :: rest) ∧
      ((ofSupply supply).afterCalls calls).ahead.Holds ((taken ++ t :: rest).map .token) ∧
      ((ofSupply supply).afterCalls calls).next.after.ahead.Holds (rest.map .token) ∧
      Expr.IsViable taken ∧ ¬ Expr.IsViable (taken ++ [t]) ∧
      (d = .expectedExpression t.location t.span ∨ d = .expectedClosingParen t.location t.span) ∧
      (d = .expectedExpression t.location t.span ↔ Expr.OperandDue taken) ∧
      (d = .expectedClosingParen t.location t.span ↔ Expr.EndsInGroup taken) := by
  obtain ⟨running, r, failed, after⟩ := next_eq_error given
  have start : (ofSupply supply).ahead.Holds (tokens.map .token) := Lookahead.holds_ofSupply gives
  obtain ⟨before, left, rfl, ends', holds⟩ := holds_afterCalls ends start running
  have lacks : ¬ LacksLevels d := by
    rintro ⟨found, limit, span, same⟩
    exact enough found limit span same
  obtain ⟨taken, t, rest, rfl, holds', blocked, viable⟩ :=
    blocked_of_expression ends' holds.peek failed lacks
  rw [after]
  exact ⟨before, taken, t, rest, rfl, holds, holds', viable, blocked.not_isViable, blocked.names,
    blocked.cause⟩

/-- In `( nil nil` and the end of input, the call fails at the second `nil`. -/
theorem given_error_of_blocked_group :
    let tokens : List Token := [.leftParen, .nilWord, .nilWord, .endOfInput].map
      (.fixed · .origin)
    let p := ofSupply (Replay.ofItems (tokens.map .token))
    p.next.given = some (.error (.expectedClosingParen "'nil'" .origin)) ∧
      ∃ before taken t rest, tokens = before ++ (taken ++ t :: rest) ∧
        ¬ Expr.IsViable (taken ++ [t]) ∧ Expr.EndsInGroup taken := by
  intro tokens p
  have gives := Replay.gives_ofItems (tokens.map .token)
  have ahead : p.reader.ahead.Holds (tokens.map .token) := (Lookahead.holds_ofSupply gives).peek
  obtain ⟨r₁, opened, ahead₁, -⟩ := advance_token ahead
  obtain ⟨r₂, inside, ahead₂, -⟩ := advance_token ahead₁
  obtain ⟨r₃, seen, ahead₃, -⟩ := peekOperator_eq ahead₂ 0
  obtain ⟨r₄, second, -⟩ := advance_token ahead₃
  have content : side 255 254 0 r₁ = .ok (.literal .nil) r₃ :=
    (bind_of_ok (operand_literal inside rfl 255 254) _).trans (chain_of_none seen 255 254 _)
  have failed : ∃ r, operand 255 255 p.reader =
      .error (.expectedClosingParen "'nil'" .origin) r := by
    rw [operand_group opened rfl, bind_of_ok content, closeGroup, bind_of_ok second]
    exact ⟨_, rfl⟩
  obtain ⟨r, failed⟩ := failed
  have given : (p.afterCalls 0).next.given =
      some (.error (.expectedClosingParen "'nil'" .origin)) :=
    next_of_error rfl rfl (bind_of_error failed _)
  have ends : ∃ t ∈ tokens, t.kind = .endOfInput := ⟨.fixed .endOfInput .origin, by decide, rfl⟩
  obtain ⟨before, taken, t, rest, split, -, -, -, stops, names, -, group⟩ :=
    given_error_of_blocked ends gives given (by simp)
  refine ⟨given, before, taken, t, rest, split, stops, group.mp ?_⟩
  rcases names with other | same
  · cases other
  · exact same

end Parser

end LoxSyntax
