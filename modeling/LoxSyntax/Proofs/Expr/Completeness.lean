import LoxSyntax.Proofs.Expr.Soundness

/-! # What is spelled can be read
A reader before a spelling of a tree whose precedences are in order reads that tree, if it has the
levels that the tree needs, and leaves what comes after the spelling. The statement that goes
through the induction is about a side that is read up to the end of the tree and no further: there
the reader stands in the middle of a chain, with the tree as its left side and one level less for
each node of the spine. -/

namespace LoxSyntax

open Reading

variable {σ : Type} [Supply σ]

namespace Reading

/-! ## What follows an expression -/

/-- At the end of input no operator comes next. -/
theorem nextOperator_eq_none_of_isEnd {rest : List Item} (ends : Parser.isEnd rest.head? = true)
    (least : Nat) : nextOperator least rest = none := by
  rw [Option.eq_none_iff_forall_ne_some]
  intro op next
  obtain ⟨t, following, rfl, kind, -⟩ := nextOperator_eq_some_iff.mp next
  unfold Parser.isEnd at ends
  simp only [List.head?_cons, kindOf, kind] at ends
  cases op <;> cases ends

/-- A token that opens an operand writes no binary operator, if it is no minus sign. -/
theorem nextOperator_eq_none_of_opening {t : Token} (opens : t.kind.opening?.isSome = true)
    (kind : t.kind ≠ .minus) (least : Nat) (rest : List Item) :
    nextOperator least (.token t :: rest) = none := by
  apply nextOperator_eq_none_of_kind
  intro op same
  rw [same] at opens kind
  cases op with
  | subtract => exact kind rfl
  | _ => cases opens

/-- Where no operator comes next, no minus sign does. -/
theorem kind_ne_minus_of_nextOperator {ts : List Token} {rest : List Item}
    (none : nextOperator 0 (ts.map .token ++ rest) = .none) : ∀ t ∈ ts.head?, t.kind ≠ .minus := by
  intro t first kind
  obtain ⟨following, rfl⟩ : ∃ following, ts = t :: following := by
    cases ts with
    | nil => cases first
    | cons t following =>
        cases first
        exact ⟨following, rfl⟩
  have found : nextOperator 0 (.token t :: (following.map .token ++ rest)) = some .subtract :=
    nextOperator_eq_some_iff.mpr ⟨t, _, rfl, kind, Nat.zero_le _⟩
  rw [List.map_cons, List.cons_append, found] at none
  cases none

/-- A closing parenthesis ends every chain. -/
theorem nextOperator_eq_none_of_rightParen {t : Token} {rest : List Item}
    (kind : t.kind = .rightParen) (least : Nat) : nextOperator least (.token t :: rest) = none := by
  apply nextOperator_eq_none_of_kind
  intro op same
  rw [kind] at same
  cases op <;> cases same

/-- A tree whose precedences are in order fits before what no operator begins. -/
theorem Fits.of_none {e : Expr} {rest : List Item} (shaped : e.isShaped = true)
    (none : nextOperator 0 rest = none) : Fits 0 e rest :=
  ⟨shaped, fun _ _ => Nat.zero_le _, fun _ _ => nextOperator_eq_none_of_le (Nat.zero_le _) none⟩

/-- The left side of a node fits before the operator of the node, in every chain that takes the
node. -/
theorem Fits.left {least : Nat} {left right : Expr} {op : BinaryOp} {t : Token}
    {rest following : List Item} (fits : Fits least (.binary left op right) rest)
    (kind : t.kind = op.kind) : Fits least left (.token t :: following) := by
  obtain ⟨leftTop, -, shaped, -⟩ := Expr.isShaped_binary_iff.mp fits.shaped
  have tight : least ≤ op.precedence := fits.least_le_top _ rfl
  refine ⟨shaped, fun q onTop => Nat.le_trans tight (leftTop q onTop), ?_⟩
  intro q onTop
  rw [Option.eq_none_iff_forall_ne_some]
  intro op' next
  obtain ⟨t', following', same, kind', tighter⟩ := nextOperator_eq_some_iff.mp next
  cases same
  -- The operator ahead is that of the node, which binds no more tightly than the left side.
  have equal : op' = op := by
    have h := BinaryOp.ofKind?_eq_some_iff.mpr kind
    rw [BinaryOp.ofKind?_eq_some_iff.mpr kind'] at h
    exact Option.some.inj h
  rw [equal] at tighter
  exact Nat.not_lt_of_le (leftTop q onTop) tighter

/-- The right side of a node fits after its operator before all that the node fits before. -/
theorem Fits.right {least : Nat} {left right : Expr} {op : BinaryOp} {rest : List Item}
    (fits : Fits least (.binary left op right) rest) :
    Fits (op.precedence + 1) right rest ∧ nextOperator (op.precedence + 1) rest = none := by
  obtain ⟨-, rightTop, -, shaped⟩ := Expr.isShaped_binary_iff.mp fits.shaped
  have stops := fits.stops _ rfl
  refine ⟨⟨shaped, rightTop, ?_⟩, stops⟩
  intro q onTop
  have tighter := rightTop q onTop
  exact nextOperator_eq_none_of_le (by omega) stops

/-! ## Reading a spelling -/

/-- A chain goes on after its left side where the operator of a node comes next. -/
theorem chain_of_operator {r : Reader σ} {least : Nat} {op : BinaryOp} {t : Token}
    {items : List Item} (holds : r.ahead.Holds (.token t :: items)) (kind : t.kind = op.kind)
    (tight : least ≤ op.precedence) :
    ∃ r₁ r₂, peekOperator least r = .ok (some op) r₁ ∧ advance r₁ = .ok t r₂ ∧
      r₂.ahead.Holds items := by
  obtain ⟨r₁, seen, holds₁, -⟩ := peekOperator_eq holds least
  obtain ⟨r₂, taken, holds₂, -⟩ := advance_token holds₁
  rw [nextOperator_eq_some_iff.mpr ⟨t, items, rfl, kind, tight⟩] at seen
  exact ⟨r₁, r₂, seen, taken, holds₂⟩

/-- **A side is read to the end of a tree** whose spelling comes next: there the tree is the left
side of the rest of the chain. -/
def ReadsTo (σ : Type) [Supply σ] (limit : Nat) (e : Expr) (ts : List Token) : Prop :=
  ∀ (r : Reader σ) (room least : Nat) (rest : List Item),
    r.ahead.Holds (ts.map .token ++ rest) → Fits least e rest → e.need ≤ room →
    ∃ r', r'.ahead.Holds rest ∧ side limit room least r = chain limit (room - e.spine) least e r'

/-- **An operand is read** where its spelling comes next. -/
def ReadsOperand (σ : Type) [Supply σ] (limit : Nat) (e : Expr) (ts : List Token) : Prop :=
  ∀ (r : Reader σ) (room : Nat) (rest : List Item),
    r.ahead.Holds (ts.map .token ++ rest) → e.need ≤ room →
    ∃ r', operand limit room r = .ok e r' ∧ r'.ahead.Holds rest

/-- A chain whose operators end with the tree ends the side. -/
theorem ReadsTo.side {limit : Nat} {e : Expr} {ts : List Token} (reads : ReadsTo σ limit e ts)
    {r : Reader σ} {room least : Nat} {rest : List Item}
    (holds : r.ahead.Holds (ts.map .token ++ rest)) (fits : Fits least e rest)
    (ends : nextOperator least rest = none) (enough : e.need ≤ room) :
    ∃ r', side limit room least r = .ok e r' ∧ r'.ahead.Holds rest := by
  obtain ⟨r₁, holds₁, reached⟩ := reads r room least rest holds fits enough
  obtain ⟨r₂, seen, holds₂, -⟩ := peekOperator_eq holds₁ least
  rw [ends] at seen
  refine ⟨r₂, ?_, holds₂⟩
  rw [reached, chain_of_none seen]

/-- A side begins with its operand. -/
theorem ReadsOperand.readsTo {limit : Nat} {e : Expr} {ts : List Token}
    (reads : ReadsOperand σ limit e ts) (top : e.top? = none) : ReadsTo σ limit e ts := by
  intro r room least rest holds fits enough
  obtain ⟨r', read, holds'⟩ := reads r room rest holds enough
  refine ⟨r', holds', ?_⟩
  rw [Expr.spine_eq_zero_of_top? top, Nat.sub_zero]
  exact bind_of_ok read _

/-- A literal is read from its token. -/
theorem readsOperand_literal (limit : Nat) {t : Token} (opens : t.kind.opening? = some .literal) :
    ReadsOperand σ limit (.literal (t.literal.getD .nil)) [t] := by
  intro r room rest holds _
  obtain ⟨r', taken, holds', -⟩ := advance_token holds
  exact ⟨r', operand_literal taken opens limit room, holds'⟩

/-- A group is read between its parentheses. -/
theorem ReadsTo.group {limit : Nat} {inner : Expr} {ts : List Token} {opened closed : Token}
    (opens : opened.kind = .leftParen) (reads : ReadsTo σ limit inner ts)
    (closes : closed.kind = .rightParen) (shaped : inner.isShaped = true) :
    ReadsOperand σ limit (.group inner) (opened :: (ts ++ [closed])) := by
  intro r room rest holds enough
  rw [List.map_cons, List.map_append, List.cons_append, List.append_assoc] at holds
  obtain ⟨r₁, taken, holds₁, -⟩ := advance_token holds
  rw [Expr.need] at enough
  obtain ⟨room, rfl⟩ : ∃ less, room = less + 1 := ⟨room - 1, by omega⟩
  have ends : nextOperator 0 (.token closed :: rest) = none :=
    nextOperator_eq_none_of_rightParen closes 0
  obtain ⟨r₂, content, holds₂⟩ := reads.side holds₁ (.of_none shaped ends) ends
    (Nat.le_of_succ_le_succ enough)
  obtain ⟨r₃, close, holds₃, -⟩ := closeGroup_token holds₂ closes inner
  refine ⟨r₃, ?_, holds₃⟩
  rw [operand_group taken (Kind.opening?_eq_group_iff.mpr opens), bind_of_ok content, close]

/-- An operator before an operand is read with it. -/
theorem ReadsOperand.unary {limit : Nat} {operand : Expr} {ts : List Token} {t : Token}
    {op : UnaryOp} (kind : t.kind = op.kind) (reads : ReadsOperand σ limit operand ts) :
    ReadsOperand σ limit (.unary op operand) (t :: ts) := by
  intro r room rest holds enough
  obtain ⟨r₁, taken, holds₁, -⟩ := advance_token holds
  rw [Expr.need] at enough
  obtain ⟨room, rfl⟩ : ∃ less, room = less + 1 := ⟨room - 1, by omega⟩
  obtain ⟨r₂, read, holds₂⟩ := reads r₁ room rest holds₁ (Nat.le_of_succ_le_succ enough)
  refine ⟨r₂, ?_, holds₂⟩
  rw [operand_unary taken (Kind.opening?_eq_unary_iff.mpr kind), bind_of_ok read]
  rfl

/-- A node is read to its end when its left side is read to its end, and its right side too. -/
theorem ReadsTo.binary {limit : Nat} {left right : Expr} {op : BinaryOp} {ls rs : List Token}
    {t : Token} (readsLeft : ReadsTo σ limit left ls) (kind : t.kind = op.kind)
    (readsRight : ReadsTo σ limit right rs) :
    ReadsTo σ limit (.binary left op right) (ls ++ t :: rs) := by
  intro r room least rest holds fits enough
  rw [List.map_append, List.append_assoc] at holds
  rw [Expr.need] at enough
  obtain ⟨r₁, holds₁, reached⟩ := readsLeft r room least _ holds (fits.left kind) (by omega)
  -- The left side stands as the left of a chain, and the node takes one of the levels left.
  obtain ⟨r₂, r₃, seen, taken, holds₃⟩ :=
    chain_of_operator holds₁ kind (fits.least_le_top _ rfl)
  obtain ⟨less, levels⟩ : ∃ less, room - left.spine = less + 1 :=
    ⟨room - left.spine - 1, by omega⟩
  obtain ⟨fitsRight, ends⟩ := fits.right
  have enough' : right.need ≤ less := by omega
  obtain ⟨r₄, beside, holds₄⟩ := readsRight.side holds₃ fitsRight ends enough'
  refine ⟨r₄, holds₄, ?_⟩
  rw [reached, levels, chain_of_some seen taken, bind_of_ok beside]
  rw [Expr.spine, show room - (left.spine + 1) = less by omega]

/-- **Every spelling is read**, as an operand where no binary operator is on top, and to its end
by every side. -/
theorem reads_of_spells (limit : Nat) {e : Expr} {ts : List Token} (spells : e.Spells ts)
    (shaped : e.isShaped = true) :
    (e.top? = none → ReadsOperand σ limit e ts) ∧ ReadsTo σ limit e ts := by
  induction spells with
  | literal opens =>
      have reads := readsOperand_literal (σ := σ) limit opens
      exact ⟨fun _ => reads, reads.readsTo rfl⟩
  | group opens spells closes ih =>
      obtain ⟨-, inside⟩ := ih shaped
      have reads := inside.group opens closes shaped
      exact ⟨fun _ => reads, reads.readsTo rfl⟩
  | unary kind spells ih =>
      obtain ⟨top, shaped⟩ := Expr.isShaped_unary_iff.mp shaped
      have reads := ((ih shaped).1 top).unary kind
      exact ⟨fun _ => reads, reads.readsTo rfl⟩
  | binary spellsLeft kind spellsRight ihl ihr =>
      obtain ⟨-, -, shapedLeft, shapedRight⟩ := Expr.isShaped_binary_iff.mp shaped
      refine ⟨fun top => ?_, (ihl shapedLeft).2.binary kind (ihr shapedRight).2⟩
      cases top

/-- **An expression is read** where its spelling comes next and no operator follows. -/
theorem expression_of_spells {limit room : Nat} {r : Reader σ} {e : Expr} {ts : List Token}
    {rest : List Item} (holds : r.ahead.Holds (ts.map .token ++ rest)) (spells : e.Spells ts)
    (shaped : e.isShaped = true) (ends : nextOperator 0 rest = none) (enough : e.need ≤ room) :
    ∃ r', expression limit room r = .ok e r' ∧ r'.ahead.Holds rest := by
  have reads : ReadsTo σ limit e ts := (reads_of_spells limit spells shaped).2
  rw [expression_eq_side]
  exact reads.side holds (.of_none shaped ends) ends enough

end Reading

/-! ## Calls -/

namespace Parser

/-- Before a spelling the input has not ended. -/
theorem begins_of_spells {p : Parser σ} {e : Expr} {ts : List Token} {rest : List Item}
    (holds : p.ahead.Holds (ts.map .token ++ rest)) (spells : e.Spells ts) :
    isEnd p.ahead.peek.given = false := by
  obtain ⟨t, following, rfl, opens⟩ := spells.opening_head
  rw [holds.given_peek]
  have kind : t.kind ≠ .endOfInput := by
    intro same
    rw [same] at opens
    cases opens
  simpa [isEnd, kindOf] using kind

/-- **A call gives the tree** whose spelling comes next, and leaves what comes after it. -/
theorem next_of_spells {p : Parser σ} {e : Expr} {ts : List Token} {rest : List Item}
    (running : p.halted = false) (holds : p.ahead.Holds (ts.map .token ++ rest))
    (spells : e.Spells ts) (shaped : e.isShaped = true) (ends : nextOperator 0 rest = none)
    (enough : e.need ≤ p.limit) :
    p.next.given = some (.ok e) ∧ p.next.after.halted = false ∧ p.next.after.limit = p.limit ∧
      p.next.after.ahead.Holds rest := by
  have begins := begins_of_spells holds spells
  -- The look at the first item leaves the spelling ahead.
  have holds' : p.reader.ahead.Holds (ts.map .token ++ rest) := holds.peek
  obtain ⟨r, read, ahead⟩ : ∃ r, expression p.limit p.limit p.reader = .ok e r ∧
      r.ahead.Holds rest := expression_of_spells holds' spells shaped ends enough
  obtain ⟨given, after⟩ := next_of_ok running begins read
  rw [after]
  exact ⟨given, running, rfl, ahead⟩

/-! ## Trees one after the other -/

/-- **Trees that can be read one after the other** within a limit of levels, each with its spelling.
A tree that began with a minus sign would go on with the one before it. -/
structure Readable (limit : Nat) (readings : List (Expr × List Token)) : Prop where
  /-- Each tree is spelled by its tokens. -/
  spells : ∀ reading ∈ readings, reading.1.Spells reading.2
  /-- The precedences of each tree are in order. -/
  shaped : ∀ reading ∈ readings, reading.1.isShaped = true
  /-- Each tree needs no more levels than there are. -/
  enough : ∀ reading ∈ readings, reading.1.need ≤ limit
  /-- None but the first begins with a minus sign. -/
  starts : ∀ reading ∈ readings.tail, ∀ t ∈ reading.2.head?, t.kind ≠ .minus

/-- What comes after the first tree can be read too. -/
theorem Readable.tail {limit : Nat} {first : Expr × List Token}
    {readings : List (Expr × List Token)} (readable : Readable limit (first :: readings)) :
    Readable limit readings where
  spells reading member := readable.spells reading (List.mem_cons_of_mem _ member)
  shaped reading member := readable.shaped reading (List.mem_cons_of_mem _ member)
  enough reading member := readable.enough reading (List.mem_cons_of_mem _ member)
  starts reading member := readable.starts reading (List.mem_of_mem_tail member)

/-- No operator comes after the first tree if none comes after all of them. -/
theorem Readable.nextOperator_eq_none {limit least : Nat} {first : Expr × List Token}
    {readings : List (Expr × List Token)} {rest : List Item}
    (readable : Readable limit (first :: readings)) (ends : nextOperator least rest = none) :
    nextOperator least ((readings.flatMap (·.2)).map .token ++ rest) = none := by
  cases readings with
  | nil => exact ends
  | cons reading readings =>
      obtain ⟨e, ts⟩ := reading
      -- The second tree begins here, and that is not with a minus sign.
      obtain ⟨t, following, rfl, opens⟩ := (readable.tail.spells _ List.mem_cons_self).opening_head
      exact nextOperator_eq_none_of_opening opens (readable.starts _ List.mem_cons_self t rfl)
        least _

/-- A tree can be read in front of others if no operator comes between them. -/
theorem Readable.cons {limit : Nat} {e : Expr} {ts : List Token}
    {readings : List (Expr × List Token)} {rest : List Item} (spells : e.Spells ts)
    (shaped : e.isShaped = true) (enough : e.need ≤ limit) (readable : Readable limit readings)
    (ends : nextOperator 0 ((readings.flatMap (·.2)).map .token ++ rest) = none) :
    Readable limit ((e, ts) :: readings) where
  spells := List.forall_mem_cons.mpr ⟨spells, readable.spells⟩
  shaped := List.forall_mem_cons.mpr ⟨shaped, readable.shaped⟩
  enough := List.forall_mem_cons.mpr ⟨enough, readable.enough⟩
  starts := by
    cases readings with
    | nil => exact List.forall_mem_nil _
    | cons second readings =>
        rw [List.flatMap_cons, List.map_append, List.append_assoc] at ends
        exact List.forall_mem_cons.mpr ⟨kind_ne_minus_of_nextOperator ends, readable.starts⟩

/-- **Trees that are spelled one after the other are given one after the other**, from any state of
a parser that runs, if no operator comes after them. The parser then stands before what comes after
them. -/
theorem results_of_readable {p : Parser σ} {readings : List (Expr × List Token)}
    {rest : List Item} (running : p.halted = false) (readable : Readable p.limit readings)
    (holds : p.ahead.Holds ((readings.flatMap (·.2)).map .token ++ rest))
    (ends : nextOperator 0 rest = none) :
    p.results readings.length = readings.map (fun reading => some (.ok reading.1)) ∧
      (p.afterCalls readings.length).ahead.Holds rest := by
  induction readings generalizing p with
  | nil => exact ⟨rfl, holds⟩
  | cons reading readings ih =>
      obtain ⟨e, ts⟩ := reading
      have stops := readable.nextOperator_eq_none ends
      rw [List.flatMap_cons, List.map_append, List.append_assoc] at holds
      have spells : e.Spells ts := readable.spells _ List.mem_cons_self
      have shaped : e.isShaped = true := readable.shaped _ List.mem_cons_self
      have enough : e.need ≤ p.limit := readable.enough _ List.mem_cons_self
      obtain ⟨given, running', limit, holds'⟩ :=
        next_of_spells running holds spells shaped stops enough
      obtain ⟨results, ahead⟩ := ih running' (by rw [limit]; exact readable.tail) holds'
      refine ⟨?_, ahead⟩
      rw [List.length_cons, Parser.results, given, results, List.map_cons]

/-- Where the input ends nothing is given any more. -/
theorem results_of_isEnd {p : Parser σ} (ends : isEnd p.ahead.peek.given = true) (calls : Nat) :
    p.results calls = List.replicate calls none := by
  cases calls with
  | zero => rfl
  | succ calls =>
      obtain ⟨none, halted⟩ := next_of_isEnd ends
      rw [results, none, results_of_halted halted, List.replicate_succ]

/-- **Completeness of parsing.** Trees whose precedences are in order, that need no more levels than
there are, and of which none but the first is spelled from a minus sign on, are given one after the
other by a parser over their spellings, and nothing is given after them. -/
theorem results_complete {supply : σ} {readings : List (Expr × List Token)} {rest : List Item}
    (readable : Readable maxDepth readings) (ends : isEnd rest.head? = true)
    (gives : Supply.Gives supply ((readings.flatMap (·.2)).map .token ++ rest)) (more : Nat) :
    (ofSupply supply).results (readings.length + more) =
      readings.map (fun reading => some (.ok reading.1)) ++ List.replicate more none := by
  have holds : (ofSupply supply).ahead.Holds _ := Lookahead.holds_ofSupply gives
  have stops := nextOperator_eq_none_of_isEnd ends 0
  obtain ⟨results, ahead⟩ := results_of_readable rfl readable holds stops
  rw [← ahead.given_peek] at ends
  rw [results_add, results, results_of_isEnd ends]

/-- The expressions of `- nil * nil true` and the end of input. -/
theorem results_complete_product :
    let product : Expr := .binary (.unary .negate (.literal .nil)) .multiply (.literal .nil)
    let truth : Expr := .literal (.bool true)
    let items : List Item := [.minus, .nilWord, .star, .nilWord, .trueWord, .endOfInput].map
      (.token <| .fixed · .origin)
    (ofSupply (Replay.ofItems items)).results 4 =
      [some (.ok product), some (.ok truth), none, none] := by
  intro product truth items
  have readable : Readable maxDepth [(product, product.tokens), (truth, truth.tokens)] := by
    refine ⟨?_, by decide, by decide, by decide⟩
    intro reading member
    simp only [List.mem_cons, List.not_mem_nil, or_false] at member
    rcases member with rfl | rfl
    · exact product.spells_tokens
    · exact truth.spells_tokens
  have ends : isEnd (List.head? [.token (.fixed .endOfInput .origin)]) = true := rfl
  exact results_complete readable ends (Replay.gives_ofItems items) 2

end Parser

end LoxSyntax
