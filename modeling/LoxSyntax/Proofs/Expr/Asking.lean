import LoxSyntax.Proofs.Expr.Calls
import Mathlib.Algebra.Ring.Nat

/-! # How often a parser asks
Reading an expression asks the supply a number of times that its levels bound, whatever the supply
gives: behind an operator an operand is read and two chains, each with one level less. So a call
that reads an expression in a limited number of levels ends over every supply, an endless one
included (`Parser.asks_next`).

1. *Single actions* and sequences of them.
2. *Readings* and calls. -/

namespace LoxSyntax

/-! ## (1) Single actions -/

namespace Lookahead

variable {σ : Type} [Supply σ]

/-- A look asks the supply at most once. -/
theorem asks_peek (ahead : Lookahead (Counted σ)) :
    ahead.peek.after.supply.asked ≤ ahead.supply.asked + 1 := by
  unfold peek
  split
  · exact Nat.le_succ _
  · exact Nat.le_refl _

/-- A pull asks the supply at most once. -/
theorem asks_pull (ahead : Lookahead (Counted σ)) :
    ahead.pull.after.supply.asked ≤ ahead.supply.asked + 1 := by
  unfold pull
  split
  · exact Nat.le_succ _
  · exact Nat.le_refl _

end Lookahead

namespace Reading

variable {σ α β : Type} {x : Reading (Counted σ) α} {m n : Nat}

/-- **An action asks its supply at most so often**, whether it succeeds or fails. -/
def Asks (most : Nat) (x : Reading (Counted σ) α) : Prop :=
  ∀ r, match x r with
    | .ok _ r' | .error _ r' => r'.ahead.supply.asked ≤ r.ahead.supply.asked + most

/-- An action that asks at most so often does not ask more often. -/
theorem Asks.mono (asks : Asks m x) (le : m ≤ n) : Asks n x := by
  intro r
  have asked := asks r
  split at asked
  all_goals exact Nat.le_trans asked (Nat.add_le_add_left le _)

/-- Nothing is asked to return a value. -/
theorem asks_pure (a : α) : Asks 0 (pure a : Reading (Counted σ) α) := fun _ => Nat.le_refl _

/-- Nothing is asked to fail. -/
theorem asks_throw (d : Diagnostic) : Asks 0 (throw d : Reading (Counted σ) α) :=
  fun _ => Nat.le_refl _

/-- One after the other, actions ask as often as both together. -/
theorem Asks.bind {f : α → Reading (Counted σ) β} (first : Asks m x)
    (second : ∀ a, Asks n (f a)) : Asks (m + n) (x >>= f) := by
  intro r
  have asked := first r
  cases done : x r with
  | error d r₁ =>
      rw [done] at asked
      rw [bind_of_error done]
      exact Nat.le_trans asked (by omega)
  | ok a r₁ =>
      rw [done] at asked
      rw [bind_of_ok done]
      have asked' := second a r₁
      split at asked'
      all_goals
        dsimp only at asked
        omega

variable [Supply σ]

/-- Taking a token asks at most once. -/
theorem asks_advance : Asks 1 (advance : Reading (Counted σ) Token) := by
  intro r
  have asked := r.ahead.asks_pull
  unfold advance
  dsimp only
  generalize r.ahead.pull.given = given
  cases given with
  | none => exact asked
  | some item =>
      cases item with
      | token t => exact asked
      | fault d => exact asked

/-- Looking for an operator asks at most once. -/
theorem asks_peekOperator (least : Nat) :
    Asks 1 (peekOperator least : Reading (Counted σ) (Option BinaryOp)) := by
  have kind : Asks 1 (peekKind : Reading (Counted σ) (Option Kind)) := fun r => r.ahead.asks_peek
  exact kind.bind fun seen => asks_pure _

/-- Closing a group asks at most once. -/
theorem asks_closeGroup (inner : Expr) : Asks 1 (closeGroup inner : Reading (Counted σ) Expr) := by
  refine (asks_advance (σ := σ)).bind (n := 0) fun t => ?_
  have noted : Asks 0 (note (.closing t) : Reading (Counted σ) Unit) := fun _ => Nat.le_refl _
  refine noted.bind (n := 0) fun _ => ?_
  split
  · exact asks_pure _
  · exact asks_throw _

/-! ## (2) Readings and calls -/

/-- **How often a reading asks is bounded by its levels alone.** The bound is threefold with each
level: behind an operator an operand is read and two chains, one of them to the right. -/
theorem asks_of_room (limit room : Nat) :
    Asks (2 * 3 ^ room - 1) (operand limit room : Reading (Counted σ) Expr) ∧
    ∀ (least : Nat) (left : Expr),
      Asks (3 * 3 ^ room - 1) (chain limit room least left : Reading (Counted σ) Expr) := by
  induction room with
  | zero =>
      constructor
      · rw [operand]
        refine (asks_advance (σ := σ)).bind (n := 0) fun t => ?_
        split
        · exact asks_throw _
        · exact asks_pure _
        · exact asks_throw _
        · exact asks_throw _
      · intro least left
        rw [chain]
        refine (asks_peekOperator least).bind (n := 1) fun seen => ?_
        cases seen with
        | none => exact (asks_pure left).mono (Nat.zero_le 1)
        | some op => exact asks_advance.bind fun t => asks_throw _
  | succ room ih =>
      obtain ⟨operands, chains⟩ := ih
      have any : 0 < 3 ^ room := Nat.pow_pos (by decide)
      constructor
      · rw [operand]
        refine ((asks_advance (σ := σ)).bind (n := 5 * 3 ^ room - 1) fun t => ?_).mono (by omega)
        split
        · exact (asks_throw _).mono (Nat.zero_le _)
        · exact (asks_pure _).mono (Nat.zero_le _)
        · exact (operands.bind fun first => (chains 0 first).bind asks_closeGroup).mono (by omega)
        · exact (operands.bind fun inner => asks_pure _).mono (by omega)
      · intro least left
        rw [chain]
        refine ((asks_peekOperator least).bind (n := 8 * 3 ^ room - 2) fun seen => ?_).mono
          (by omega)
        cases seen with
        | none => exact (asks_pure left).mono (Nat.zero_le _)
        | some op =>
            exact (asks_advance.bind fun t => operands.bind fun first =>
              (chains _ first).bind fun right => chains least _).mono (by omega)

/-- Reading an expression asks a bounded number of times. -/
theorem asks_expression (limit : Nat) :
    Asks (5 * 3 ^ limit - 2) (expression limit limit : Reading (Counted σ) Expr) := by
  obtain ⟨operands, chains⟩ := asks_of_room (σ := σ) limit limit
  have any : 0 < 3 ^ limit := Nat.pow_pos (by decide)
  exact (operands.bind fun first => chains 0 first).mono (by omega)

end Reading

/-- **A call asks a bounded number of times**: it looks at the next item, and reads an expression at
most. -/
theorem Parser.asks_next {σ : Type} [Supply σ] (p : Parser (Counted σ)) :
    p.next.after.ahead.supply.asked < p.ahead.supply.asked + 5 * 3 ^ p.limit := by
  have any : 0 < 3 ^ p.limit := Nat.pow_pos (by decide)
  have looked := p.ahead.asks_peek
  have asked := Reading.asks_expression p.limit p.reader
  have call := p.call_next
  generalize p.next.given = given at call
  generalize p.next.after = after at call ⊢
  cases call with
  | halted halted => exact Nat.lt_add_of_pos_right (by omega)
  | ended running ends => exact Nat.lt_of_le_of_lt looked (by omega)
  | ok running begins read =>
      rw [read] at asked
      exact Nat.lt_of_le_of_lt asked (by change p.ahead.peek.after.supply.asked + _ < _; omega)
  | error running begins read =>
      rw [read] at asked
      exact Nat.lt_of_le_of_lt asked (by change p.ahead.peek.after.supply.asked + _ < _; omega)

end LoxSyntax
