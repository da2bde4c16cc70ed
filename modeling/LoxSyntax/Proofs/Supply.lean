import LoxSyntax.Lookahead

/-! # What a supply gives
A **finite** supply gives the items of a list, one at each call, and nothing after them. Behind one
place of lookahead the list shows as the items still **ahead**: a look gives the first of them and
leaves all of them, a pull gives the first and leaves the others. So whoever reads from a lookahead
can be followed on the list alone, whatever the supply is made of. -/

namespace LoxSyntax

/-! ## Finite supplies -/

namespace Supply

variable {σ : Type} [Supply σ]

/-- The state of a supply after it was asked so many times. -/
def after : Nat → σ → σ
  | 0, s => s
  | calls + 1, s => after calls (next s).after

/-- A supply that is asked more goes on where it was left. -/
theorem after_add (calls more : Nat) (s : σ) :
    after (calls + more) s = after more (after calls s) := by
  induction calls generalizing s with
  | zero => rw [Nat.zero_add, after]
  | succ calls ih => rw [Nat.succ_add, after, ih, after]

/-- **The answer** of a supply that was asked so many times before. -/
def answer (s : σ) (calls : Nat) : Option Item := (next (after calls s)).given

/-- **A fused supply** gives nothing more after it gave nothing once. -/
def Fused (s : σ) : Prop := ∀ calls, answer s calls = none → answer s (calls + 1) = none

/-- What comes after nothing is nothing, if the supply is fused. -/
theorem Fused.answer_of_le {s : σ} (fused : Fused s) {call later : Nat}
    (nothing : answer s call = none) (le : call ≤ later) : answer s later = none := by
  induction le with
  | refl => exact nothing
  | step le ih => exact fused _ ih

/-- What a fused supply leaves is fused. -/
theorem Fused.next {s : σ} (fused : Fused s) : Fused (next s).after :=
  fun calls => fused (calls + 1)

/-- **A finite supply**: it gives the items of a list, one at each call, and nothing after them. -/
def Gives (s : σ) (items : List Item) : Prop :=
  ∀ calls, (next (after calls s)).given = items[calls]?

/-- A finite supply is fused. -/
theorem Gives.fused {s : σ} {items : List Item} (gives : Gives s items) : Fused s := by
  intro calls nothing
  have short := List.getElem?_eq_none_iff.mp ((gives calls).symm.trans nothing)
  exact (gives (calls + 1)).trans (List.getElem?_eq_none (Nat.le_succ_of_le short))

/-- A fused supply that gives nothing is finite, with nothing left to give. -/
theorem Fused.gives_nil {s : σ} (fused : Fused s) (nothing : (Supply.next s).given = none) :
    Gives (Supply.next s).after [] := by
  have first : answer s 0 = none := nothing
  exact fun calls => fused.answer_of_le first (Nat.zero_le (calls + 1))

/-- A finite supply gives the first item of its list, if there is one. -/
theorem Gives.given {s : σ} {items : List Item} (gives : Gives s items) :
    (next s).given = items.head? := by
  have first := gives 0
  rw [List.head?_eq_getElem?]
  exact first

/-- A finite supply gives the items of one list. -/
theorem Gives.unique {s : σ} {items others : List Item} (gives : Gives s items)
    (gives' : Gives s others) : items = others :=
  List.ext_getElem? fun call => (gives call).symm.trans (gives' call)

/-- After one call a finite supply gives the other items of its list. -/
theorem Gives.tail {s : σ} {items : List Item} (gives : Gives s items) :
    Gives (next s).after items.tail := by
  intro calls
  rw [List.getElem?_tail]
  exact gives (calls + 1)

end Supply

namespace Replay

/-- After some calls, a list that is given item by item still holds the items after those. -/
theorem after_ofItems (items : List Item) (calls : Nat) :
    Supply.after calls (ofItems items) = ofItems (items.drop calls) := by
  induction calls generalizing items with
  | zero => rfl
  | succ calls ih =>
      cases items with
      | nil =>
          rw [List.drop_nil]
          have h := ih []
          rw [List.drop_nil] at h
          exact h
      | cons item items => exact ih items

/-- **A list that is given item by item is a finite supply.** -/
theorem gives_ofItems (items : List Item) : Supply.Gives (ofItems items) items := by
  intro calls
  rw [after_ofItems, ← List.head?_drop]
  cases items.drop calls with
  | nil => rfl
  | cons item rest => rfl

end Replay

/-! ## Supplies that count -/

/-- A supply that **counts** how often it is asked, and answers as another one does. -/
structure Counted (σ : Type) where
  /-- The other supply, as it was at the start. -/
  start : σ
  /-- How often it was asked. -/
  asked : Nat

namespace Counted

variable {σ : Type} [Supply σ]

/-- Ask for an item. -/
def next (c : Counted σ) : Step (Counted σ) Item :=
  let asked := Supply.next (Supply.after c.asked c.start)
  ⟨asked.records, asked.given, { c with asked := c.asked + 1 }⟩

instance : Supply (Counted σ) := ⟨next⟩

omit [Supply σ] in
/-- A supply whose calls are counted from now on. -/
def ofSupply (s : σ) : Counted σ := ⟨s, 0⟩

/-- **The items received** from a supply that was asked so often, in order. -/
def received (c : Counted σ) : List Item := (List.range c.asked).filterMap (Supply.answer c.start)

/-- What a call gives comes after what was received before. -/
theorem received_next (c : Counted σ) :
    (Supply.next c).after.received = c.received ++ (Supply.next c).given.toList := by
  obtain ⟨start, asked⟩ := c
  change (List.range (asked + 1)).filterMap (Supply.answer start) =
    (List.range asked).filterMap (Supply.answer start) ++ (Supply.answer start asked).toList
  rw [List.range_succ, List.filterMap_append]
  cases given : Supply.answer start asked <;> simp [given]

/-- Asking more often counts as much. -/
theorem after_eq (c : Counted σ) (calls : Nat) :
    Supply.after calls c = { c with asked := c.asked + calls } := by
  induction calls generalizing c with
  | zero => rfl
  | succ calls ih =>
      rw [Supply.after, ih]
      change Counted.mk c.start (c.asked + 1 + calls) = _
      rw [Nat.add_right_comm, Nat.add_assoc]

/-- **Counting changes no answer.** -/
theorem answer_ofSupply (s : σ) (calls : Nat) :
    Supply.answer (ofSupply s) calls = Supply.answer s calls := by
  rw [Supply.answer, after_eq]
  change (Supply.next (Supply.after (0 + calls) s)).given = _
  rw [Nat.zero_add, Supply.answer]

/-- **A fused supply gives its items without a gap**: what was received is no longer than the number
of calls, and begins with their answers. -/
theorem received_of_fused {c : Counted σ} (fused : Supply.Fused c.start) :
    c.received.length ≤ c.asked ∧
      ∀ call < c.asked, c.received[call]? = Supply.answer c.start call := by
  obtain ⟨start, asked⟩ := c
  induction asked with
  | zero => exact ⟨Nat.le_refl 0, fun call lt => absurd lt (Nat.not_lt_zero call)⟩
  | succ asked ih =>
      obtain ⟨short, answers⟩ := ih fused
      have grown : (mk start (asked + 1)).received =
          (mk start asked).received ++ (Supply.answer start asked).toList :=
        received_next ⟨start, asked⟩
      rw [grown]
      generalize (mk start asked).received = received at short answers ⊢
      cases given : Supply.answer start asked with
      | none =>
          rw [Option.toList_none, List.append_nil]
          refine ⟨Nat.le_succ_of_le short, ?_⟩
          intro call lt
          rcases Nat.lt_succ_iff_lt_or_eq.mp lt with lt | rfl
          · exact answers call lt
          · exact (List.getElem?_eq_none short).trans given.symm
      | some item =>
          -- An answer that was missed before would have been followed by no item.
          have full : received.length = asked := by
            refine Nat.le_antisymm short (Nat.le_of_not_lt fun lt => ?_)
            have missed := (answers _ lt).symm.trans (List.getElem?_eq_none (Nat.le_refl _))
            have still := Supply.Fused.answer_of_le fused missed short
            cases still.symm.trans given
          refine ⟨by simp [full], ?_⟩
          intro call lt
          rcases Nat.lt_succ_iff_lt_or_eq.mp lt with lt | rfl
          · rw [List.getElem?_append_left (full ▸ lt)]
            exact answers call lt
          · rw [← full, List.getElem?_append_right (Nat.le_refl _)]
            simp [full, given]

/-- **A fused supply that once gave nothing** has given all its items. -/
theorem gives_received {c : Counted σ} (fused : Supply.Fused c.start) {call : Nat}
    (lt : call < c.asked) (nothing : Supply.answer c.start call = none) :
    Supply.Gives c.start c.received := by
  obtain ⟨short, answers⟩ := received_of_fused fused
  intro other
  rcases Nat.lt_or_ge other c.asked with within | beyond
  · exact (answers other within).symm
  · have ended := Supply.Fused.answer_of_le fused nothing (Nat.le_trans (Nat.le_of_lt lt) beyond)
    rw [List.getElem?_eq_none (Nat.le_trans short beyond)]
    exact ended

end Counted

/-! ## Behind one place of lookahead -/

namespace Lookahead

variable {σ : Type} [Supply σ]

/-- **The items ahead**: the one that is held, if any, and then those that the supply gives. -/
def Holds (ahead : Lookahead σ) (items : List Item) : Prop :=
  ∃ rest, Supply.Gives ahead.supply rest ∧ items = ahead.held.toList ++ rest

/-- Of a finite supply that nobody looked at, all items are ahead. -/
theorem holds_ofSupply {supply : σ} {items : List Item} (gives : Supply.Gives supply items) :
    (ofSupply supply).Holds items :=
  ⟨items, gives, rfl⟩

/-- The items ahead are those of one list. -/
theorem Holds.unique {ahead : Lookahead σ} {items others : List Item} (holds : ahead.Holds items)
    (holds' : ahead.Holds others) : items = others := by
  obtain ⟨rest, gives, rfl⟩ := holds
  obtain ⟨rest', gives', rfl⟩ := holds'
  rw [gives.unique gives']

/-- A look gives the first of the items ahead. -/
theorem Holds.given_peek {ahead : Lookahead σ} {items : List Item} (holds : ahead.Holds items) :
    ahead.peek.given = items.head? := by
  obtain ⟨rest, gives, rfl⟩ := holds
  unfold peek
  split
  · next item held => rw [held]; rfl
  · next held => rw [held]; exact gives.given

/-- A look leaves all items ahead. -/
theorem Holds.peek {ahead : Lookahead σ} {items : List Item} (holds : ahead.Holds items) :
    ahead.peek.after.Holds items := by
  obtain ⟨rest, gives, rfl⟩ := holds
  unfold Lookahead.peek
  split
  · exact ⟨rest, gives, rfl⟩
  · next held =>
      -- The item looked at moves from the supply to the place in front of it.
      refine ⟨rest.tail, gives.tail, ?_⟩
      simp only [held, gives.given]
      cases rest with
      | nil => rfl
      | cons item rest => rfl

/-- A pull gives the first of the items ahead. -/
theorem Holds.given_pull {ahead : Lookahead σ} {items : List Item} (holds : ahead.Holds items) :
    ahead.pull.given = items.head? := by
  obtain ⟨rest, gives, rfl⟩ := holds
  unfold pull
  split
  · next item held => rw [held]; rfl
  · next held => rw [held]; exact gives.given

/-- A pull leaves the items ahead but the first. -/
theorem Holds.pull {ahead : Lookahead σ} {items : List Item} (holds : ahead.Holds items) :
    ahead.pull.after.Holds items.tail := by
  obtain ⟨rest, gives, rfl⟩ := holds
  unfold Lookahead.pull
  split
  · next item held => exact ⟨rest, gives, by rw [held]; rfl⟩
  · next held => exact ⟨rest.tail, gives.tail, by rw [held]; rfl⟩

end Lookahead

end LoxSyntax
