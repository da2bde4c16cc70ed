import Mathlib.Tactic.Ring
import LoxSyntax.Proofs.Expr.Completeness
import LoxSyntax.Proofs.Expr.Grammar

/-! # The limit of levels
A parser allows a number of levels, and what it measures against them is the **need** of a tree: an
operator of a chain takes a level for all that comes after it, and what stands on the left of it
takes none of that. The need is not the height.

1. *Need and height* bound each other, though only by squares.
2. *What is given*: every tree that a parser gives, over any supply, needs at most the levels there
   are.
3. *What is refused*: of the trees whose precedences are in order, exactly those that need more
   levels are refused, each at one of its own tokens.
4. *The limit and the height*: so a parser gives trees that are higher than its limit, and refuses
   trees that are lower; both are stated with their exact condition, and seen in one case. -/

namespace LoxSyntax

open Reading

variable {σ : Type} [Supply σ]

/-! ## (1) Need and height -/

namespace Expr

/-- The next doubled triangle number. -/
theorem triangle_succ (n : Nat) : (n + 1) * (n + 1 + 1) = n * (n + 1) + 2 * n + 2 := by ring

/-- Doubled triangle numbers grow. -/
theorem triangle_mono {m n : Nat} (le : m ≤ n) : m * (m + 1) ≤ n * (n + 1) :=
  Nat.mul_le_mul le (Nat.add_le_add_right le 1)

/-- A height that a triangle bounds, beside a path no longer than its side, is bounded by the next
triangle one level further up. -/
theorem two_mul_succ_le {side path height : Nat} (short : path ≤ side)
    (below : 2 * height ≤ 2 * path + side * (side + 1)) :
    2 * (height + 1) ≤ (side + 1) * (side + 1 + 1) := by
  rw [triangle_succ]
  omega

/-- Below its spine a tree is at most as high as the triangle over the levels it needs. -/
theorem two_mul_height_le (e : Expr) : 2 * e.height ≤ 2 * e.spine + e.need * (e.need + 1) := by
  induction e with
  | literal v => exact Nat.zero_le _
  | group inner ih =>
      have spine : (group inner).spine = 0 := rfl
      rw [spine, Nat.mul_zero, Nat.zero_add]
      exact two_mul_succ_le (spine_le_need inner) ih
  | unary op operand ih =>
      have spine : (unary op operand).spine = 0 := rfl
      rw [spine, Nat.mul_zero, Nat.zero_add]
      exact two_mul_succ_le (spine_le_need operand) ih
  | binary left op right ihl ihr =>
      have needLeft : left.need ≤ (binary left op right).need := Nat.le_max_left _ _
      have needRight : right.need + 1 ≤ (binary left op right).need := by
        simp only [need]
        omega
      -- The left side counts below the spine, the right side one level further down.
      have onLeft : 2 * left.height ≤ 2 * left.spine + _ :=
        Nat.le_trans ihl (Nat.add_le_add_left (triangle_mono needLeft) _)
      have onRight : 2 * (right.height + 1) ≤ _ :=
        Nat.le_trans (two_mul_succ_le (spine_le_need right) ihr) (triangle_mono needRight)
      simp only [height, Expr.spine]
      omega

/-- **A tree that needs few levels is not very high.** -/
theorem height_le_of_need_le {e : Expr} {levels : Nat} (enough : e.need ≤ levels) :
    2 * e.height ≤ levels * (levels + 3) := by
  have height := two_mul_height_le e
  have spine := spine_le_need e
  have triangle := triangle_mono enough
  have product : levels * (levels + 3) = levels * (levels + 1) + 2 * levels := by ring
  omega

/-- **A tree that is not very high needs few levels.** -/
theorem need_le_of_height_le {e : Expr} {levels : Nat} (low : e.height ≤ levels) :
    2 * e.need ≤ levels * (levels + 1) := by
  induction e generalizing levels with
  | literal v => exact Nat.zero_le _
  | group inner ih =>
      simp only [height] at low
      obtain ⟨levels, rfl⟩ : ∃ less, levels = less + 1 := ⟨levels - 1, by omega⟩
      have inside := ih (Nat.le_of_succ_le_succ low)
      exact two_mul_succ_le (Nat.zero_le levels) (by omega)
  | unary op operand ih =>
      simp only [height] at low
      obtain ⟨levels, rfl⟩ : ∃ less, levels = less + 1 := ⟨levels - 1, by omega⟩
      have inside := ih (Nat.le_of_succ_le_succ low)
      exact two_mul_succ_le (Nat.zero_le levels) (by omega)
  | binary left op right ihl ihr =>
      simp only [height] at low
      obtain ⟨levels, rfl⟩ : ∃ less, levels = less + 1 := ⟨levels - 1, by omega⟩
      have onLeft := ihl (show left.height ≤ levels by omega)
      have onRight := ihr (show right.height ≤ levels by omega)
      -- The spine on the left is a path, so its levels are among those of the height.
      have spine := spine_le_height left
      rw [triangle_succ]
      simp only [need]
      omega

/-! ### Two families of trees -/

/-- The absent value in so many groups. -/
def nested : Nat → Expr
  | 0 => .literal .nil
  | levels + 1 => .group (nested levels)

/-- So many additions one after the other. -/
def row : Nat → Expr
  | 0 => .literal .nil
  | levels + 1 => .binary (row levels) .add (.literal .nil)

/-- Groups need as many levels as they are high. -/
theorem nested_measures (levels : Nat) :
    (nested levels).isShaped = true ∧ (nested levels).top? = none ∧
      (nested levels).need = levels ∧ (nested levels).height = levels := by
  induction levels with
  | zero => exact ⟨rfl, rfl, rfl, rfl⟩
  | succ levels ih =>
      obtain ⟨shaped, -, enough, high⟩ := ih
      exact ⟨shaped, rfl, congrArg (· + 1) enough, congrArg (· + 1) high⟩

/-- Additions one after the other are a spine, and as high as it is long. -/
theorem row_measures (levels : Nat) :
    (row levels).isShaped = true ∧ (∀ q ∈ (row levels).top?, BinaryOp.add.precedence ≤ q) ∧
      (row levels).spine = levels ∧ (row levels).need = levels ∧
      (row levels).height = levels := by
  induction levels with
  | zero => exact ⟨rfl, by simp [row, top?], rfl, rfl, rfl⟩
  | succ levels ih =>
      obtain ⟨shaped, top, spine, enough, high⟩ := ih
      refine ⟨isShaped_binary_iff.mpr ⟨top, by simp [top?], shaped, rfl⟩, ?_, ?_, ?_, ?_⟩
      · intro q onTop
        cases onTop
        exact Nat.le_refl _
      · simp only [row, Expr.spine, spine]
      · simp only [row, need, spine, enough]
        omega
      · simp only [row, height, high]
        omega

/-- What is added to groups needs no level beside theirs, and makes the tree one level higher. -/
theorem nested_add_measures (levels : Nat) :
    let e : Expr := .binary (nested (levels + 1)) .add (.literal .nil)
    e.isShaped = true ∧ e.need = levels + 1 ∧ e.height = levels + 2 := by
  obtain ⟨shaped, top, enough, high⟩ := nested_measures (levels + 1)
  refine ⟨isShaped_binary_iff.mpr ⟨by simp [top], by simp [top?], shaped, rfl⟩, ?_, ?_⟩
  · simp only [need, enough, spine_eq_zero_of_top? top]
    omega
  · simp only [height, high]
    omega

/-- Groups at the end of a row need a level for each addition beside their own. -/
theorem row_add_nested_measures (additions levels : Nat) :
    let e : Expr := .binary (row additions) .add (nested levels)
    e.isShaped = true ∧ e.need = additions + 1 + levels ∧ e.height = max additions levels + 1 := by
  obtain ⟨shapedRow, topRow, spineRow, enoughRow, highRow⟩ := row_measures additions
  obtain ⟨shaped, top, enough, high⟩ := nested_measures levels
  refine ⟨isShaped_binary_iff.mpr ⟨topRow, by simp [top], shapedRow, shaped⟩, ?_, ?_⟩
  · simp only [need, enough, enoughRow, spineRow]
    omega
  · simp only [height, high, highRow]

end Expr

/-! ## (2) What is given -/

namespace Reading

/-- **A reading never needs more than its levels.** An operand needs at most those there are; a
chain needs at most those there are and one more for each operator it began with. This holds over
every supply, an endless or unreliable one included. -/
theorem need_le_of_read (limit room : Nat) :
    (∀ {r : Reader σ} {e r'}, operand limit room r = .ok e r' → e.need ≤ room ∧ e.spine = 0) ∧
      ∀ {least left} {r : Reader σ} {e r'}, chain limit room least left r = .ok e r' →
        left.need ≤ room + left.spine → e.need ≤ room + left.spine := by
  refine success_induction (P := fun room (_ : Reader σ) e _ => e.need ≤ room ∧ e.spine = 0)
    (Q := fun room _ left _ e _ => left.need ≤ room + left.spine → e.need ≤ room + left.spine)
    ?_ ?_ ?_ ?_ ?_ limit room
  · intro room r t r₁ taken opens
    exact ⟨Nat.zero_le _, rfl⟩
  · -- What is inside a group begins with no operator taken, so it has one level less.
    intro room r t r₁ first r₂ inner r₃ e r' taken opens operand chain closed
    obtain ⟨t', r₄, taken', kind, rfl, ahead⟩ := closeGroup_eq_ok closed
    obtain ⟨enough, spine⟩ := operand
    have inside := chain (by omega)
    refine ⟨?_, rfl⟩
    simp only [Expr.need]
    omega
  · intro room r t r₁ op inner r' taken opens operand
    exact ⟨Nat.succ_le_succ operand.1, rfl⟩
  · intro room least left r r' seen enough
    exact enough
  · -- The operator takes a level from the rest of the chain, and the spine gets longer by one.
    intro room least left r op r₁ t r₂ first r₃ right r₄ e r' seen taken operand beside chain enough
    obtain ⟨enoughFirst, spine⟩ := operand
    have enoughRight := beside (by omega)
    simp only [Expr.need, Expr.spine] at chain
    have whole := chain (by omega)
    omega

/-- An expression that was read needs at most the levels there were. -/
theorem need_le_of_expression {limit room : Nat} {r r' : Reader σ} {e : Expr}
    (read : expression limit room r = .ok e r') : e.need ≤ room := by
  obtain ⟨first, r₁, started, went⟩ := bind_eq_ok_iff.mp read
  obtain ⟨operands, chains⟩ := need_le_of_read (σ := σ) limit room
  obtain ⟨enough, spine⟩ := operands started
  have whole := chains went (by omega)
  omega

/-! ## (3) What is refused -/

/-- **A side is refused** where the spelling of a tree comes next that needs more levels. -/
def Refuses (σ : Type) [Supply σ] (limit : Nat) (e : Expr) (ts : List Token) : Prop :=
  ∀ (r : Reader σ) (room least : Nat) (rest : List Item),
    r.ahead.Holds (ts.map .token ++ rest) → Fits least e rest → room < e.need →
    ∃ t ∈ ts, ∃ r', side limit room least r = .error (.tooDeep t.location limit t.span) r'

/-- **An operand is refused** where the spelling of a tree comes next that needs more levels. -/
def RefusesOperand (σ : Type) [Supply σ] (limit : Nat) (e : Expr) (ts : List Token) : Prop :=
  ∀ (r : Reader σ) (room : Nat) (rest : List Item),
    r.ahead.Holds (ts.map .token ++ rest) → room < e.need →
    ∃ t ∈ ts, ∃ r', operand limit room r = .error (.tooDeep t.location limit t.span) r'

/-- A side whose operand is refused is refused. -/
theorem RefusesOperand.refuses {limit : Nat} {e : Expr} {ts : List Token}
    (refuses : RefusesOperand σ limit e ts) : Refuses σ limit e ts := by
  intro r room least rest holds fits lacks
  obtain ⟨t, member, r', refused⟩ := refuses r room rest holds lacks
  exact ⟨t, member, r', bind_of_error refused _⟩

/-- A group is refused for want of a level of its own, or for what is inside it. -/
theorem Refuses.group {limit : Nat} {inner : Expr} {ts : List Token} {opened closed : Token}
    (opens : opened.kind = .leftParen) (refuses : Refuses σ limit inner ts)
    (closes : closed.kind = .rightParen) (shaped : inner.isShaped = true) :
    RefusesOperand σ limit (.group inner) (opened :: (ts ++ [closed])) := by
  intro r room rest holds lacks
  rw [List.map_cons, List.map_append, List.cons_append, List.append_assoc] at holds
  obtain ⟨r₁, taken, holds₁, -⟩ := advance_token holds
  have opening := Kind.opening?_eq_group_iff.mpr opens
  simp only [Expr.need] at lacks
  -- Without a level the opening parenthesis is refused, with one something inside.
  cases room with
  | zero => exact ⟨opened, List.mem_cons_self, r₁, operand_tooDeep taken opening (by decide) limit⟩
  | succ room =>
      have ends : nextOperator 0 (.token closed :: rest) = none :=
        nextOperator_eq_none_of_rightParen closes 0
      obtain ⟨t, member, r', refused⟩ := refuses r₁ room 0 _ holds₁ (.of_none shaped ends)
        (Nat.lt_of_succ_lt_succ lacks)
      refine ⟨t, List.mem_cons_of_mem _ (List.mem_append_left _ member), r', ?_⟩
      rw [operand_group taken opening, bind_of_error refused]

/-- An operator before an operand is refused for want of a level of its own, or with the operand. -/
theorem RefusesOperand.unary {limit : Nat} {operand : Expr} {ts : List Token} {t : Token}
    {op : UnaryOp} (kind : t.kind = op.kind) (refuses : RefusesOperand σ limit operand ts) :
    RefusesOperand σ limit (.unary op operand) (t :: ts) := by
  intro r room rest holds lacks
  obtain ⟨r₁, taken, holds₁, -⟩ := advance_token holds
  have opening := Kind.opening?_eq_unary_iff.mpr kind
  simp only [Expr.need] at lacks
  cases room with
  | zero => exact ⟨t, List.mem_cons_self, r₁, operand_tooDeep taken opening (by simp) limit⟩
  | succ room =>
      obtain ⟨t', member, r', refused⟩ := refuses r₁ room rest holds₁
        (Nat.lt_of_succ_lt_succ lacks)
      refine ⟨t', List.mem_cons_of_mem _ member, r', ?_⟩
      rw [operand_unary taken opening, bind_of_error refused]

/-- A node is refused with its left side, or for want of a level for its operator, or with its right
side. -/
theorem Refuses.binary {limit : Nat} {left right : Expr} {op : BinaryOp} {ls rs : List Token}
    {t : Token} (readsLeft : ReadsTo σ limit left ls) (refusesLeft : Refuses σ limit left ls)
    (kind : t.kind = op.kind) (refusesRight : Refuses σ limit right rs) :
    Refuses σ limit (.binary left op right) (ls ++ t :: rs) := by
  intro r room least rest holds fits lacks
  rw [List.map_append, List.append_assoc] at holds
  simp only [Expr.need] at lacks
  -- Either the left side is read and the node or its right side lacks a level, or the left side is
  -- refused before the node is reached.
  by_cases enough : left.need ≤ room
  · obtain ⟨r₁, holds₁, reached⟩ := readsLeft r room least _ holds (fits.left kind) enough
    obtain ⟨r₂, r₃, seen, taken, holds₃⟩ :=
      chain_of_operator holds₁ kind (fits.least_le_top _ rfl)
    rw [reached]
    cases levels : room - left.spine with
    | zero =>
        refine ⟨t, List.mem_append_right _ List.mem_cons_self, r₃, ?_⟩
        exact chain_tooDeep seen taken limit left
    | succ less =>
        obtain ⟨t', member, r', refused⟩ := refusesRight r₃ less _ rest holds₃ fits.right.1
          (by omega)
        refine ⟨t', List.mem_append_right _ (List.mem_cons_of_mem _ member), r', ?_⟩
        rw [chain_of_some seen taken, bind_of_error refused]
  · obtain ⟨t', member, r', refused⟩ := refusesLeft r room least _ holds (fits.left kind) (by omega)
    exact ⟨t', List.mem_append_left _ member, r', refused⟩

/-- **Every tree that needs more levels is refused**, as an operand where no binary operator is on
top, and by every side. -/
theorem refuses_of_spells (limit : Nat) {e : Expr} {ts : List Token} (spells : e.Spells ts)
    (shaped : e.isShaped = true) :
    (e.top? = none → RefusesOperand σ limit e ts) ∧ Refuses σ limit e ts := by
  induction spells with
  | @literal t opens =>
      -- A literal needs no level, so it is never refused.
      have refuses : RefusesOperand σ limit (.literal (t.literal.getD .nil)) [t] := by
        intro r room rest holds lacks
        cases lacks
      exact ⟨fun _ => refuses, refuses.refuses⟩
  | group opens spells closes ih =>
      obtain ⟨-, inside⟩ := ih shaped
      have refuses := inside.group opens closes shaped
      exact ⟨fun _ => refuses, refuses.refuses⟩
  | unary kind spells ih =>
      obtain ⟨top, shaped⟩ := Expr.isShaped_unary_iff.mp shaped
      have refuses := ((ih shaped).1 top).unary kind
      exact ⟨fun _ => refuses, refuses.refuses⟩
  | binary spellsLeft kind spellsRight ihl ihr =>
      obtain ⟨-, -, shapedLeft, shapedRight⟩ := Expr.isShaped_binary_iff.mp shaped
      have readsLeft := (reads_of_spells (σ := σ) limit spellsLeft shapedLeft).2
      refine ⟨fun top => ?_, .binary readsLeft (ihl shapedLeft).2 kind (ihr shapedRight).2⟩
      cases top

/-- **An expression is refused** where its spelling comes next, no operator follows, and it needs
more levels. -/
theorem expression_tooDeep {limit room : Nat} {r : Reader σ} {e : Expr} {ts : List Token}
    {rest : List Item} (holds : r.ahead.Holds (ts.map .token ++ rest)) (spells : e.Spells ts)
    (shaped : e.isShaped = true) (ends : nextOperator 0 rest = none) (lacks : room < e.need) :
    ∃ t ∈ ts, ∃ r', expression limit room r = .error (.tooDeep t.location limit t.span) r' := by
  have refuses : Refuses σ limit e ts := (refuses_of_spells limit spells shaped).2
  rw [expression_eq_side]
  exact refuses r room 0 rest holds (.of_none shaped ends) lacks

end Reading

/-! ## (4) The limit and the height -/

namespace Parser

/-- Every expression that a call gives needs at most the levels there are, over every supply and in
every state of the parser. -/
theorem need_le_of_next {p : Parser σ} {e : Expr} (given : p.next.given = some (.ok e)) :
    e.need ≤ p.limit := by
  obtain ⟨-, r, read, -⟩ := next_eq_ok given
  exact need_le_of_expression read

/-- Every expression of a run needs at most the levels there are. -/
theorem need_le_of_mem_results {p : Parser σ} {calls : Nat} {e : Expr}
    (member : some (.ok e) ∈ p.results calls) : e.need ≤ p.limit := by
  induction calls generalizing p with
  | zero => cases member
  | succ calls ih =>
      rw [results] at member
      rcases List.mem_cons.mp member with given | later
      · exact need_le_of_next given.symm
      · have enough := ih later
        rw [limit_next] at enough
        exact enough

/-- A call refuses the tree whose spelling comes next, if it needs more levels. -/
theorem next_tooDeep {p : Parser σ} {e : Expr} {ts : List Token} {rest : List Item}
    (running : p.halted = false) (holds : p.ahead.Holds (ts.map .token ++ rest))
    (spells : e.Spells ts) (shaped : e.isShaped = true) (ends : nextOperator 0 rest = none)
    (lacks : p.limit < e.need) :
    ∃ t ∈ ts, p.next.given = some (.error (.tooDeep t.location p.limit t.span)) := by
  have begins := begins_of_spells holds spells
  -- The look at the first item leaves the spelling ahead.
  have holds' : p.reader.ahead.Holds (ts.map .token ++ rest) := holds.peek
  obtain ⟨t, member, r, refused⟩ : ∃ t ∈ ts, ∃ r, expression p.limit p.limit p.reader =
      .error (.tooDeep t.location p.limit t.span) r :=
    expression_tooDeep holds' spells shaped ends lacks
  exact ⟨t, member, next_of_error running begins refused⟩

/-- **Every expression of a run was spelled.** If a parser gives an expression at one of its calls,
the items ahead begin with the spellings of trees that can be read one after the other, with no
operator after them, and the expression is one of these trees. -/
theorem exists_readable_of_mem_results {p : Parser σ} {items : List Item} {calls : Nat} {e : Expr}
    (holds : p.ahead.Holds items) (member : some (.ok e) ∈ p.results calls) :
    ∃ (readings : List (Expr × List Token)) (rest : List Item),
      items = (readings.flatMap (·.2)).map .token ++ rest ∧ nextOperator 0 rest = none ∧
        Readable p.limit readings ∧ ∃ reading ∈ readings, reading.1 = e := by
  induction calls generalizing p items with
  | zero => cases member
  | succ calls ih =>
      rw [results] at member
      by_cases given : ∃ first, p.next.given = some (.ok first)
      · obtain ⟨first, given⟩ := given
        obtain ⟨ts, rest, rfl, holds', spells, shaped, ends⟩ := spells_of_next holds given
        have enough := need_le_of_next given
        have alone : Readable p.limit [] := ⟨by simp, by simp, by simp, by simp⟩
        rcases List.mem_cons.mp member with same | later
        · -- The first call gives it, and nothing has to be known of the later ones.
          rw [given] at same
          cases same
          refine ⟨[(e, ts)], rest, ?_, ends, .cons spells shaped enough alone ends, _,
            List.mem_cons_self, rfl⟩
          rw [List.flatMap_cons, List.flatMap_nil, List.append_nil]
        · -- A later call gives it, and the first tree stands in front of the others.
          obtain ⟨readings, rest', rfl, ends', readable, reading, among, same⟩ := ih holds' later
          rw [limit_next] at readable
          refine ⟨(first, ts) :: readings, rest', ?_, ends',
            .cons spells shaped enough readable ends, reading, List.mem_cons_of_mem _ among, same⟩
          rw [List.flatMap_cons, List.map_append, List.append_assoc]
      · -- The first call gives no expression, so no later one does.
        have halted := halted_after_next (fun first same => given ⟨first, same⟩)
        rw [results_of_halted halted] at member
        rcases List.mem_cons.mp member with same | later
        · exact absurd ⟨e, same.symm⟩ given
        · cases List.eq_of_mem_replicate later

/-- Each of the spellings that items begin with is no longer than the items. -/
theorem length_le_of_mem_readings {readings : List (Expr × List Token)} {items rest : List Item}
    {reading : Expr × List Token} (split : items = (readings.flatMap (·.2)).map .token ++ rest)
    (member : reading ∈ readings) : reading.2.length ≤ items.length := by
  have among : reading.2 ∈ readings.map (·.2) := List.mem_map_of_mem member
  rw [split, List.length_append, List.length_map, List.flatMap_def]
  exact Nat.le_add_right_of_le (List.sublist_flatten_of_mem among).length_le

/-- **When a run keeps to the limit.** Over every supply, what a parser gives needs at most the
levels there are, which bounds its height by a square. Over a finite supply, all that it gives has
at most as many levels as the limit exactly when the items do not begin with the spellings of trees
that can be read one after the other and of which one is higher than that. -/
theorem results_height_le_iff (supply : σ) :
    (∀ calls e, some (.ok e) ∈ (ofSupply supply).results calls →
      e.need ≤ maxDepth ∧ 2 * e.height ≤ maxDepth * (maxDepth + 3)) ∧
    ∀ items, Supply.Gives supply items →
      ((∀ calls e, some (.ok e) ∈ (ofSupply supply).results calls → e.height ≤ maxDepth) ↔
        ∀ (readings : List (Expr × List Token)) (rest : List Item),
          items = (readings.flatMap (·.2)).map .token ++ rest → nextOperator 0 rest = none →
          Readable maxDepth readings → ∀ reading ∈ readings, reading.1.height ≤ maxDepth) := by
  constructor
  · intro calls e member
    have enough : e.need ≤ maxDepth := need_le_of_mem_results member
    exact ⟨enough, Expr.height_le_of_need_le enough⟩
  · intro items gives
    have holds : (ofSupply supply).ahead.Holds items := Lookahead.holds_ofSupply gives
    constructor
    · rintro low readings rest rfl ends readable reading among
      obtain ⟨results, -⟩ := results_of_readable rfl readable holds ends
      apply low readings.length
      rw [results]
      exact List.mem_map_of_mem among
    · intro low calls e member
      obtain ⟨readings, rest, split, ends, readable, reading, among, rfl⟩ :=
        exists_readable_of_mem_results holds member
      exact low readings rest split ends readable reading among

/-- Before the plain spelling of a tree, the parser has that spelling ahead and nothing after it. -/
theorem holds_tokens (e : Expr) :
    (ofSupply (Replay.ofItems (e.tokens.map .token))).ahead.Holds (e.tokens.map .token ++ []) := by
  rw [List.append_nil]
  exact Lookahead.holds_ofSupply (Replay.gives_ofItems _)

/-- **The limit is not kept**: two hundred and fifty-five groups and one addition after them are
given, a tree of one level more. -/
theorem given_nested_add :
    let e : Expr := .binary (.nested 255) .add (.literal .nil)
    let supply := Replay.ofItems (e.tokens.map .token)
    (ofSupply supply).next.given = some (.ok e) ∧ e.height = maxDepth + 1 := by
  intro e supply
  obtain ⟨shaped, needs, high⟩ := Expr.nested_add_measures 254
  have given := next_of_spells rfl (holds_tokens e) e.spells_tokens shaped rfl (Nat.le_of_eq needs)
  exact ⟨given.1, high⟩

/-- One hundred groups are too few items to go beyond the limit. -/
theorem results_height_le_nested :
    let items : List Item := (Expr.nested 100).tokens.map .token
    ∀ calls e, some (.ok e) ∈ (ofSupply (Replay.ofItems items)).results calls →
      e.height ≤ maxDepth := by
  intro items
  have gives := Replay.gives_ofItems items
  refine ((results_height_le_iff (Replay.ofItems items)).2 items gives).mpr ?_
  intro readings rest split ends readable reading member
  -- A tree is less high than its spelling is long, which is no longer than all items.
  have lower := (readable.spells reading member).height_lt_length
  have shorter := length_le_of_mem_readings split member
  have length : items.length = 201 := rfl
  rw [maxDepth]
  omega

/-- **When an expression is given and when it is refused.** Of what the grammar derives as one
expression, with no operator after it, exactly the trees that need no more levels than there are
are given; the others are refused, each at one of its tokens. -/
theorem given_of_derives_iff {supply : σ} {e : Expr} {ts : List Token} {rest : List Item}
    (derives : Expr.Derives 1 ts e) (stops : nextOperator 0 rest = none)
    (gives : Supply.Gives supply (ts.map .token ++ rest)) :
    ((ofSupply supply).next.given = some (.ok e) ↔ e.need ≤ maxDepth) ∧
      ((∃ t ∈ ts, (ofSupply supply).next.given =
        some (.error (.tooDeep t.location maxDepth t.span))) ↔ maxDepth < e.need) := by
  obtain ⟨spells, shaped⟩ := Expr.derives_iff.mp derives
  have holds := Lookahead.holds_ofSupply gives
  have accepted : e.need ≤ maxDepth → (ofSupply supply).next.given = some (.ok e) := by
    intro enough
    exact (next_of_spells rfl holds spells shaped stops enough).1
  have refused : maxDepth < e.need → ∃ t ∈ ts, (ofSupply supply).next.given =
      some (.error (.tooDeep t.location maxDepth t.span)) := by
    intro lacks
    exact next_tooDeep rfl holds spells shaped stops lacks
  refine ⟨⟨need_le_of_next, accepted⟩, ?_, refused⟩
  -- What is refused is not given, so it needs more levels than there are.
  rintro ⟨t, member, given⟩
  apply Nat.lt_of_not_le
  intro enough
  rw [accepted enough] at given
  cases given

/-- **Low trees are refused**: a row of one hundred and twenty-seven additions, and in the last
operand one hundred and twenty-eight groups, have one hundred and twenty-nine levels. -/
theorem refused_row_add_nested :
    let e : Expr := .binary (.row 127) .add (.nested 128)
    Expr.Derives 1 e.tokens e ∧ e.height = 129 ∧
      ∃ t ∈ e.tokens, (ofSupply (Replay.ofItems (e.tokens.map .token))).next.given =
        some (.error (.tooDeep t.location maxDepth t.span)) := by
  intro e
  obtain ⟨shaped, needs, high⟩ := Expr.row_add_nested_measures 127 128
  have derives := Expr.derives_iff.mpr ⟨e.spells_tokens, shaped⟩
  have refused :=
    next_tooDeep rfl (holds_tokens e) e.spells_tokens shaped rfl (Nat.le_of_eq needs.symm)
  exact ⟨derives, high, refused⟩

/-- One group fewer, and the tree is given. -/
theorem given_row_add_nested :
    let e : Expr := .binary (.row 127) .add (.nested 127)
    let items : List Item := e.tokens.map .token ++ [.token (.fixed .endOfInput .origin)]
    (ofSupply (Replay.ofItems items)).next.given = some (.ok e) := by
  intro e items
  obtain ⟨shaped, needs, high⟩ := Expr.row_add_nested_measures 127 127
  have derives := Expr.derives_iff.mpr ⟨e.spells_tokens, shaped⟩
  exact (given_of_derives_iff derives rfl (Replay.gives_ofItems _)).1.mpr (Nat.le_of_eq needs)

/-- **No expression of at most twenty-two levels is refused.** -/
theorem given_of_height_le {supply : σ} {e : Expr} {ts : List Token} {rest : List Item}
    (derives : Expr.Derives 1 ts e) (stops : nextOperator 0 rest = none)
    (gives : Supply.Gives supply (ts.map .token ++ rest)) (low : e.height ≤ 22) :
    (ofSupply supply).next.given = some (.ok e) := by
  obtain ⟨spells, shaped⟩ := Expr.derives_iff.mp derives
  have enough : e.need ≤ maxDepth := by
    have square := Expr.need_le_of_height_le low
    rw [maxDepth]
    omega
  have holds : (ofSupply supply).ahead.Holds (ts.map .token ++ rest) :=
    Lookahead.holds_ofSupply gives
  exact (next_of_spells rfl holds spells shaped stops enough).1

end Parser

end LoxSyntax
