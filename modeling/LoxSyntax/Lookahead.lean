import LoxSyntax.Supply

/-! # Lookahead
A supply with one place in front of it, so that the next item can be looked at before it is taken.
The place is filled only by looking, and only when it is empty; a supply that gave nothing is asked
again. -/

namespace LoxSyntax

/-- A supply with **one item of lookahead**. -/
structure Lookahead (σ : Type) where
  /-- The supply. -/
  supply : σ
  /-- The item that was looked at and not taken yet. -/
  held : Option Item
deriving DecidableEq

namespace Lookahead

variable {σ : Type} [Supply σ]

/-- A supply of which nothing was looked at yet. -/
def ofSupply (supply : σ) : Lookahead σ := ⟨supply, none⟩

/-- **Take** the next item. -/
def pull (ahead : Lookahead σ) : Step (Lookahead σ) Item :=
  match ahead.held with
  | some item => ⟨[], some item, ⟨ahead.supply, none⟩⟩
  | none =>
    let asked := Supply.next ahead.supply
    ⟨asked.records, asked.given, ⟨asked.after, none⟩⟩

/-- **Look at** the next item. -/
def peek (ahead : Lookahead σ) : Step (Lookahead σ) Item :=
  match ahead.held with
  | some item => ⟨[], some item, ahead⟩
  | none =>
    let asked := Supply.next ahead.supply
    ⟨asked.records, asked.given, ⟨asked.after, asked.given⟩⟩

/-- Whether nothing is left, as far as a look tells. -/
def isExhausted (ahead : Lookahead σ) : Bool := ahead.peek.given.isNone

/-- A held item is seen without asking. -/
theorem peek_of_held {ahead : Lookahead σ} {item : Item} (h : ahead.held = some item) :
    ahead.peek = ⟨[], some item, ahead⟩ := by
  unfold peek
  rw [h]

/-- A held item is taken without asking. -/
theorem pull_of_held {ahead : Lookahead σ} {item : Item} (h : ahead.held = some item) :
    ahead.pull = ⟨[], some item, ⟨ahead.supply, none⟩⟩ := by
  unfold pull
  rw [h]

/-- What a look gives is held. -/
theorem held_peek (ahead : Lookahead σ) : ahead.peek.after.held = ahead.peek.given := by
  unfold peek
  split
  · next h => exact h
  · rfl

/-- What was looked at is what is taken. -/
theorem pull_peek {ahead : Lookahead σ} {item : Item} (h : ahead.peek.given = some item) :
    ahead.peek.after.pull = ⟨[], some item, ⟨ahead.peek.after.supply, none⟩⟩ :=
  pull_of_held ((held_peek ahead).trans h)

end Lookahead

end LoxSyntax
