import LoxSyntax.Proofs.Expr.Calls

/-! # What a parser logs
A parser adds records of its own to the log, none of them a trace. Its traces are those of the
supply behind it, in the order in which that was asked, whether an expression is read or an error is
met. So after any calls of a parser the traces logged are those of a supply that was asked some
number of times, and the supply left is what it is after those (`Parser.asked_afterCalls`).

1. *Traces* of a supply that is asked again and again.
2. *Readings*, which ask the supply only.
3. *Calls* of a parser. -/

namespace LoxSyntax

/-! ## (1) Traces of a supply -/

/-- **The traces** among some records. -/
def traces (records : List Record) : List Record := records.filter (·.level = .trace)

@[simp] theorem traces_nil : traces [] = [] := rfl

@[simp] theorem traces_append (first second : List Record) :
    traces (first ++ second) = traces first ++ traces second :=
  List.filter_append ..

/-- The first ones of some records hold the first of their traces. -/
theorem isPrefix_traces {first records : List Record} (isFirst : first <+: records) :
    traces first <+: traces records :=
  isFirst.filter _

namespace Supply

variable {σ : Type} [Supply σ]

/-- What a supply logs while it is asked so many times. -/
def logged : Nat → σ → List Record
  | 0, _ => []
  | calls + 1, s => (next s).records ++ logged calls (next s).after

/-- What a supply logs when it is asked more comes after what it logged. -/
theorem logged_add (calls more : Nat) (s : σ) :
    logged (calls + more) s = logged calls s ++ logged more (after calls s) := by
  induction calls generalizing s with
  | zero => rw [Nat.zero_add, logged, List.nil_append, after]
  | succ calls ih => rw [Nat.succ_add, logged, ih, logged, after, List.append_assoc]

/-- A supply that gives nothing after some calls has given all its items in them. -/
theorem Gives.length_le {s : σ} {items : List Item} (gives : Gives s items) {calls : Nat}
    (nothing : Gives (after calls s) []) : items.length ≤ calls := by
  have first := gives calls
  rw [nothing.given] at first
  exact List.getElem?_eq_none_iff.mp first.symm

/-- **A supply that was asked only**: it is what it is after some calls, and of the records the
traces are those that it logs meanwhile. -/
def Asked (s : σ) (records : List Record) (s' : σ) : Prop :=
  ∃ calls, s' = after calls s ∧ traces records = traces (logged calls s)

/-- Nothing was asked, and no trace was logged. -/
theorem Asked.refl (s : σ) {records : List Record} (none : traces records = []) :
    Asked s records s :=
  ⟨0, rfl, none⟩

/-- A supply that was asked once. -/
theorem asked_next (s : σ) : Asked s (next s).records (next s).after :=
  ⟨1, rfl, by rw [logged, logged, List.append_nil]⟩

/-- A supply that was asked, and then asked again. -/
theorem Asked.trans {s s₁ s₂ : σ} {first second : List Record} (asked : Asked s first s₁)
    (asked' : Asked s₁ second s₂) : Asked s (first ++ second) s₂ := by
  obtain ⟨calls, rfl, logged₁⟩ := asked
  obtain ⟨more, rfl, logged₂⟩ := asked'
  refine ⟨calls + more, (after_add ..).symm, ?_⟩
  rw [logged_add, traces_append, traces_append, logged₁, logged₂]

end Supply

namespace Lookahead

variable {σ : Type} [Supply σ]

/-- A look asks the supply once, or not at all. -/
theorem asked_peek (ahead : Lookahead σ) :
    Supply.Asked ahead.supply ahead.peek.records ahead.peek.after.supply := by
  unfold peek
  split
  · exact .refl _ rfl
  · exact Supply.asked_next _

/-- A pull asks the supply once, or not at all. -/
theorem asked_pull (ahead : Lookahead σ) :
    Supply.Asked ahead.supply ahead.pull.records ahead.pull.after.supply := by
  unfold pull
  split
  · exact .refl _ rfl
  · exact Supply.asked_next _

end Lookahead

/-! ## (2) Readings -/

namespace Reading

variable {σ : Type} [Supply σ]

/-- **A reader that asked its supply only**: what was added to its log are the traces of the supply,
and records that are no traces. -/
def Asked (r r' : Reader σ) : Prop :=
  ∃ added, r'.log.toList = r.log.toList ++ added ∧
    Supply.Asked r.ahead.supply added r'.ahead.supply

/-- A reader that did nothing. -/
theorem Asked.refl (r : Reader σ) : Asked r r :=
  ⟨[], (List.append_nil _).symm, .refl _ rfl⟩

/-- A reader that asked, and then asked again. -/
theorem Asked.trans {r r₁ r₂ : Reader σ} (asked : Asked r r₁) (asked' : Asked r₁ r₂) :
    Asked r r₂ := by
  obtain ⟨first, log, supply⟩ := asked
  obtain ⟨second, log', supply'⟩ := asked'
  exact ⟨first ++ second, by rw [log', log, List.append_assoc], supply.trans supply'⟩

/-- **Reading an expression asks the supply only**, whether it succeeds or fails. -/
theorem asked_expression (limit room : Nat) (r : Reader σ) :
    match (expression limit room r : EStateM.Result Diagnostic (Reader σ) Expr) with
    | .ok _ r' | .error _ r' => Asked r r' := by
  have advance :
      Meets (Asked r) (fun _ => Asked r) (fun _ => True) (advance : Reading σ Token) := by
    intro r₁ asked
    have log : (r₁.log ++ r₁.ahead.pull.records).toList =
        r₁.log.toList ++ r₁.ahead.pull.records := by simp
    have pulled : ∀ last, Asked r₁ ⟨r₁.ahead.pull.after, last, r₁.log ++ r₁.ahead.pull.records⟩ :=
      fun last => ⟨_, log, r₁.ahead.asked_pull⟩
    unfold Reading.advance
    dsimp only
    cases r₁.ahead.pull.given with
    | none => exact ⟨asked.trans (pulled _), trivial⟩
    | some item =>
        cases item with
        | token t => exact ⟨asked.trans (pulled _), trivial⟩
        | fault d => exact asked.trans (pulled _)
  have peekKind : Meets (Asked r) (fun _ => Asked r) (fun _ => True)
      (peekKind : Reading σ (Option Kind)) := fun r₁ asked =>
    ⟨asked.trans ⟨_, by simp, r₁.ahead.asked_peek⟩, trivial⟩
  have closing : ∀ t, Meets (Asked r) (fun _ => Asked r) (fun _ => True)
      (note (.closing t) : Reading σ Unit) := fun t r₁ asked =>
    ⟨asked.trans ⟨[.closing t], by simp, .refl _ rfl⟩, trivial⟩
  have met := meets_expression advance peekKind closing (fun _ _ _ _ _ kept => kept) limit room r
    (.refl r)
  split at met
  · next read => rw [read]; exact met.1
  · next read => rw [read]; exact met

end Reading

/-! ## (3) Calls of a parser -/

namespace Parser

variable {σ : Type} [Supply σ]

/-- What a parser logs in so many calls. -/
def logged : Nat → Parser σ → List Record
  | 0, _ => []
  | calls + 1, p => p.next.records ++ logged calls p.next.after

/-- More calls start where the first ones left the parser. -/
theorem afterCalls_add (calls more : Nat) (p : Parser σ) :
    p.afterCalls (calls + more) = (p.afterCalls calls).afterCalls more := by
  induction calls generalizing p with
  | zero => rw [Nat.zero_add, afterCalls]
  | succ calls ih => rw [Nat.succ_add, afterCalls, ih, afterCalls]

/-- A parser that has halted stays as it is. -/
theorem afterCalls_of_halted {p : Parser σ} (halted : p.halted = true) (calls : Nat) :
    p.afterCalls calls = p := by
  induction calls with
  | zero => rfl
  | succ calls ih => rw [afterCalls, next, if_pos halted, ih]

/-- A parser that has halted logs nothing. -/
theorem logged_of_halted {p : Parser σ} (halted : p.halted = true) (calls : Nat) :
    p.logged calls = [] := by
  induction calls with
  | zero => rfl
  | succ calls ih => rw [logged, next, if_pos halted, ih, List.append_nil]

/-- Steps up to the first that gives no expression log what as many calls log. -/
theorem records_steps (p : Parser σ) (calls : Nat) :
    (p.steps calls).flatMap (·.records) = p.logged calls := by
  induction calls generalizing p with
  | zero => rfl
  | succ calls ih =>
      rw [steps_succ, List.flatMap_cons, logged]
      split
      · rw [ih]
      · next stops =>
          have halted : p.next.after.halted = true := by
            apply halted_after_next
            intro e given
            simp [goesOn, given] at stops
          rw [logged_of_halted halted, List.flatMap_nil]

/-- **A call asks the supply only.** -/
theorem asked_next (p : Parser σ) :
    Supply.Asked p.ahead.supply p.next.records p.next.after.ahead.supply := by
  unfold next
  split
  · exact .refl _ rfl
  dsimp only
  split
  · exact p.ahead.asked_peek
  -- The look before the expression asks, and then the expression does.
  have asked := Reading.asked_expression p.limit p.limit p.reader
  rw [reader] at asked
  split
  · next e r read =>
      rw [read] at asked
      obtain ⟨added, log, supply⟩ := asked
      have own : traces [.parsed e] = [] := rfl
      have whole := (p.ahead.asked_peek.trans supply).trans (.refl _ own)
      rw [Array.toList_push, show r.log.toList = p.ahead.peek.records ++ added from log]
      exact whole
  · next d r read =>
      rw [read] at asked
      obtain ⟨added, log, supply⟩ := asked
      have own : traces [.stopped d] = [] := rfl
      have whole := (p.ahead.asked_peek.trans supply).trans (.refl _ own)
      rw [Array.toList_push, show r.log.toList = p.ahead.peek.records ++ added from log]
      exact whole

/-- **Calls ask the supply only.** -/
theorem asked_afterCalls (p : Parser σ) (calls : Nat) :
    Supply.Asked p.ahead.supply (p.logged calls) (p.afterCalls calls).ahead.supply := by
  induction calls generalizing p with
  | zero => exact .refl _ rfl
  | succ calls ih => exact (asked_next p).trans (ih p.next.after)

end Parser

end LoxSyntax
