import LoxSyntax.Proofs.Expr.Reading

/-! # Calls of a parser
A parser is used by calls, one after the other. `Call` lists what one call can do; `results` and
`afterCalls` say what many calls give and where they leave the parser. -/

namespace LoxSyntax.Parser

variable {σ : Type} [Supply σ]

/-! ## One call -/

/-- The reader with which a call reads its expression: the first item was looked at. -/
def reader (p : Parser σ) : Reader σ := ⟨p.ahead.peek.after, p.last, p.ahead.peek.records.toArray⟩

/-- **What a call does**: what it gives, and what the parser is afterwards. -/
inductive Call (p : Parser σ) : Option (Except Diagnostic Expr) → Parser σ → Prop where
  /-- A parser that has halted gives nothing and stays as it is. -/
  | halted (halted : p.halted = true) : Call p none p
  /-- At the end of input nothing is given, and the parser halts. -/
  | ended (running : p.halted = false) (ends : isEnd p.ahead.peek.given = true) :
    Call p none { p with ahead := p.ahead.peek.after, halted := true }
  /-- An expression is read and given. -/
  | ok {e : Expr} {r : Reader σ} (running : p.halted = false)
    (begins : isEnd p.ahead.peek.given = false)
    (read : Reading.expression p.limit p.limit p.reader = .ok e r) :
    Call p (some (.ok e)) { p with ahead := r.ahead, last := r.last }
  /-- What cannot be read is an error, and the parser halts. -/
  | error {d : Diagnostic} {r : Reader σ} (running : p.halted = false)
    (begins : isEnd p.ahead.peek.given = false)
    (read : Reading.expression p.limit p.limit p.reader = .error d r) :
    Call p (some (.error d)) { p with ahead := r.ahead, last := r.last, halted := true }

/-- **Every call is of one of the four kinds.** -/
theorem call_next (p : Parser σ) : Call p p.next.given p.next.after := by
  unfold next
  split
  · next halted => exact .halted halted
  · next running =>
      have running : p.halted = false := by simpa using running
      dsimp only
      split
      · next ends => exact .ended running ends
      · next begins =>
          have begins : isEnd p.ahead.peek.given = false := by simpa using begins
          split
          · next e r read => exact .ok running begins read
          · next d r read => exact .error running begins read

/-- An expression that a call gives was read by it. -/
theorem next_eq_ok {p : Parser σ} {e : Expr} (given : p.next.given = some (.ok e)) :
    p.halted = false ∧ ∃ r, Reading.expression p.limit p.limit p.reader = .ok e r ∧
      p.next.after = { p with ahead := r.ahead, last := r.last } := by
  have call := p.call_next
  rw [given] at call
  generalize p.next.after = after at call
  cases call with
  | ok running begins read => exact ⟨running, _, read, rfl⟩

/-- An error that a call gives was met by it. -/
theorem next_eq_error {p : Parser σ} {d : Diagnostic} (given : p.next.given = some (.error d)) :
    p.halted = false ∧ ∃ r, Reading.expression p.limit p.limit p.reader = .error d r ∧
      p.next.after = { p with ahead := r.ahead, last := r.last, halted := true } := by
  have call := p.call_next
  rw [given] at call
  generalize p.next.after = after at call
  cases call with
  | error running begins read => exact ⟨running, _, read, rfl⟩

/-- Where a parser that runs gives nothing it has looked at the end of input, and halts. -/
theorem next_eq_none {p : Parser σ} (running : p.halted = false) (given : p.next.given = none) :
    isEnd p.ahead.peek.given = true ∧
      p.next.after = { p with ahead := p.ahead.peek.after, halted := true } := by
  have call := p.call_next
  rw [given] at call
  generalize p.next.after = after at call
  cases call with
  | halted halted => cases running.symm.trans halted
  | ended running ends => exact ⟨ends, rfl⟩

/-- No call changes the limit. -/
theorem limit_next (p : Parser σ) : p.next.after.limit = p.limit := by
  have call := p.call_next
  generalize p.next.given = result at call
  generalize p.next.after = after at call
  cases call <;> rfl

/-- A call that gives no expression leaves a parser that has halted. -/
theorem halted_after_next {p : Parser σ} (given : ∀ e, p.next.given ≠ some (.ok e)) :
    p.next.after.halted = true := by
  have call := p.call_next
  generalize p.next.given = result at call given
  generalize p.next.after = after at call
  cases call with
  | halted halted => exact halted
  | ended running ends => rfl
  | ok running begins read => exact absurd rfl (given _)
  | error running begins read => rfl

/-- A call that gives nothing leaves a parser that has halted. -/
theorem halted_of_none {p : Parser σ} (given : p.next.given = none) :
    p.next.after.halted = true := by
  apply halted_after_next
  simp [given]

/-- A call that gives an error leaves a parser that has halted. -/
theorem halted_of_error {p : Parser σ} {d : Diagnostic} (given : p.next.given = some (.error d)) :
    p.next.after.halted = true := by
  apply halted_after_next
  simp [given]

/-- Where an expression begins, a call gives the expression that can be read there. -/
theorem next_of_ok {p : Parser σ} {e : Expr} {r : Reader σ} (running : p.halted = false)
    (begins : isEnd p.ahead.peek.given = false)
    (read : Reading.expression p.limit p.limit p.reader = .ok e r) :
    p.next.given = some (.ok e) ∧
      p.next.after = { p with ahead := r.ahead, last := r.last } := by
  rw [reader] at read
  rw [next, if_neg (by simp [running])]
  simp only [begins, read]
  exact ⟨rfl, rfl⟩

/-- Where an expression begins that cannot be read, a call gives the error. -/
theorem next_of_error {p : Parser σ} {d : Diagnostic} {r : Reader σ} (running : p.halted = false)
    (begins : isEnd p.ahead.peek.given = false)
    (read : Reading.expression p.limit p.limit p.reader = .error d r) :
    p.next.given = some (.error d) := by
  rw [reader] at read
  rw [next, if_neg (by simp [running])]
  simp only [begins, read]
  rfl

/-- At the end of input a call gives nothing, and the parser halts. -/
theorem next_of_isEnd {p : Parser σ} (ends : isEnd p.ahead.peek.given = true) :
    p.next.given = none ∧ p.next.after.halted = true := by
  unfold next
  split
  · next halted => exact ⟨rfl, halted⟩
  · simp only [ends]
    exact ⟨rfl, rfl⟩

/-! ## Many calls -/

/-- What so many calls give, one after the other. -/
def results : Nat → Parser σ → List (Option (Except Diagnostic Expr))
  | 0, _ => []
  | calls + 1, p => p.next.given :: results calls p.next.after

/-- What so many calls leave. -/
def afterCalls : Nat → Parser σ → Parser σ
  | 0, p => p
  | calls + 1, p => afterCalls calls p.next.after

/-- Calls do not change the limit. -/
theorem limit_afterCalls (p : Parser σ) (calls : Nat) : (p.afterCalls calls).limit = p.limit := by
  induction calls generalizing p with
  | zero => rfl
  | succ calls ih => rw [afterCalls, ih, limit_next]

/-- More calls go on where the first ones left the parser. -/
theorem results_add (calls more : Nat) (p : Parser σ) :
    p.results (calls + more) = p.results calls ++ (p.afterCalls calls).results more := by
  induction calls generalizing p with
  | zero => rw [Nat.zero_add, results, List.nil_append, afterCalls]
  | succ calls ih => rw [Nat.succ_add, results, results, List.cons_append, ih, afterCalls]

/-- A parser that has halted gives nothing more, however often it is called. -/
theorem results_of_halted {p : Parser σ} (halted : p.halted = true) (calls : Nat) :
    p.results calls = List.replicate calls none := by
  induction calls with
  | zero => rfl
  | succ calls ih =>
      have same : p.next = ⟨[], none, p⟩ := by
        rw [next, if_pos halted]
      rw [results, same, ih, List.replicate_succ]

/-- A parser that has halted stays so, however often it is called. -/
theorem halted_afterCalls {p : Parser σ} (halted : p.halted = true) (calls : Nat) :
    (p.afterCalls calls).halted = true := by
  induction calls with
  | zero => exact halted
  | succ calls ih =>
      have same : p.next = ⟨[], none, p⟩ := by
        rw [next, if_pos halted]
      rw [afterCalls, same]
      exact ih

end LoxSyntax.Parser
