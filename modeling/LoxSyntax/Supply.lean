import LoxSyntax.Record

/-! # Supplies of items
A supply gives items one at a time, on demand. It may give nothing for a while and go on later; one
that never goes on after it has given nothing is called fused. -/

namespace LoxSyntax

/-- One **step** of something that gives values on demand: what it logs meanwhile, what it gives,
and what it is afterwards. -/
structure Step (σ α : Type) where
  /-- The records logged, in order. -/
  records : List Record
  /-- The value given, if any. -/
  given : Option α
  /-- The state afterwards. -/
  after : σ

/-- A **supply** of items, by its state. -/
class Supply (σ : Type) where
  /-- Ask for an item. -/
  next : σ → Step σ Item

/-- A supply that answers from a list, with nothing for each absent entry and for ever after the
last. -/
structure Replay where
  /-- The answers still to come. -/
  answers : List (Option Item)
deriving DecidableEq

namespace Replay

/-- Give the next answer of the list. -/
def next (r : Replay) : Step Replay Item :=
  match r.answers with
  | [] => ⟨[], none, r⟩
  | answer :: answers => ⟨[], answer, ⟨answers⟩⟩

/-- The supply that gives the items of a list, and then nothing. -/
def ofItems (items : List Item) : Replay := ⟨items.map some⟩

instance : Supply Replay := ⟨next⟩

end Replay

end LoxSyntax
