import LoxSyntax.Proofs.Expr.Depth
import LoxSyntax.Proofs.Expr.Parallel
import LoxSyntax.Proofs.Expr.Runs

/-! # Runs one after the other
Nothing of an expression is left behind when it was read: neither levels nor looks nor places. So a
parser over the spellings of a run, with other items after them, gives the expressions of the run,
and then what a parser over the other items gives, if those begin with no binary operator
(`Parser.Run.results_append`).

1. *Expressions that were given* can be read again.
2. *Items that were moved* are read as they are where they stood before.
3. *Runs* with other items after them. -/

namespace LoxSyntax

open Reading

variable {σ τ : Type} [Supply σ] [Supply τ]

/-! ## (1) Expressions that were given -/

namespace Parser

/-- **Expressions that were given** were read from spellings that can be read one after the other.
-/
theorem exists_readable {p : Parser σ} {items : List Item} (holds : p.ahead.Holds items)
    {es : List Expr} (given : p.results es.length = es.map fun e => some (.ok e)) :
    ∃ readings rest, readings.map (·.1) = es ∧ Readable p.limit readings ∧
      items = (readings.flatMap (·.2)).map .token ++ rest ∧
      (p.afterCalls es.length).ahead.Holds rest := by
  induction es generalizing p items with
  | nil => exact ⟨[], items, rfl, ⟨by simp, by simp, by simp, by simp⟩, rfl, holds⟩
  | cons e es ih =>
      rw [List.length_cons, results, List.map_cons] at given
      obtain ⟨first, others⟩ := List.cons.inj given
      obtain ⟨ts, left, rfl, holds', spells, shaped, ends⟩ := spells_of_next holds first
      obtain ⟨readings, rest, rfl, readable, rfl, holds''⟩ := ih holds' others
      rw [limit_next] at readable
      refine ⟨(e, ts) :: readings, rest, rfl,
        .cons spells shaped (need_le_of_next first) readable ends, ?_, holds''⟩
      rw [List.flatMap_cons, List.map_append, List.append_assoc]

/-- A parser that gave only expressions still runs. -/
theorem running_of_results {p : Parser σ} (running : p.halted = false) {es : List Expr}
    (given : p.results es.length = es.map fun e => some (.ok e)) :
    (p.afterCalls es.length).halted = false := by
  induction es generalizing p with
  | nil => exact running
  | cons e es ih =>
      rw [List.length_cons, results, List.map_cons] at given
      obtain ⟨first, others⟩ := List.cons.inj given
      exact ih (running_of_next first) others

end Parser

/-! ## (2) Items that were moved -/

/-- **Items that were moved** by a function on spans, and the place before them too, if it matters.
-/
def Moved (f : Span → Span) (items : List Item) (last : Span) (items' : List Item) (last' : Span) :
    Prop :=
  items' = items.map (.mapSpan f) ∧ (last' = f last ∨ items ≠ [])

/-- Items that were moved start alike. -/
theorem Moved.startAlike {f : Span → Span} {items items' : List Item} {last last' : Span}
    (moved : Moved f items last items' last') :
    StartAlike f (fun _ => False) (Moved f) items last items' last' := by
  obtain ⟨rfl, place⟩ := moved
  cases items with
  | nil =>
      obtain rfl := place.resolve_right (· rfl)
      exact .ended
  | cons item rest =>
      cases item with
      | token t => exact .token (t := t) ⟨rfl, .inl rfl⟩
      | fault d => exact .fault

/-- A parser over items that were moved gives what one over the items gives, in its place. -/
theorem Parser.results_of_moved {q : Parser σ} {p : Parser τ} {f : Span → Span}
    {others : List Item} (any : others ≠ []) (holds : q.ahead.Holds others)
    (holds' : p.ahead.Holds (others.map (.mapSpan f))) (running : q.halted = false)
    (running' : p.halted = false) (limit : p.limit = q.limit) (calls : Nat) :
    p.results calls = (q.results calls).map (Option.map (.mapError (.mapSpan f))) := by
  have step : InStep (Ahead (σ := σ) (τ := τ) (Moved f)) f fun _ => False :=
    inStep_ahead Moved.startAlike
  have beside : Parser.Beside (Ahead (Moved f)) q p :=
    ⟨running'.trans running.symm, limit, fun _ => ⟨others, _, holds, holds', rfl, .inr any⟩⟩
  exact beside.results step calls fun _ _ => not_false

/-! ## (3) Runs with other items after them -/

namespace Parser.Run

variable {p : Parser σ} {items left : List Item} {readings : List (Expr × List Token)}
  {failure : Option Diagnostic}

/-- **The expressions of a run** are given wherever their spellings come next and no operator comes
after them, and the parser is left before what comes after them. -/
theorem results_of_holds (run : Run p items readings left failure) (holds : p.ahead.Holds items)
    {p' : Parser τ} (running : p'.halted = false) (limit : p'.limit = p.limit) {others : List Item}
    (holds' : p'.ahead.Holds ((readings.flatMap (·.2)).map .token ++ others))
    (stops : nextOperator 0 others = none) :
    p'.results readings.length = readings.map (fun reading => some (.ok reading.1)) ∧
      (p'.afterCalls readings.length).halted = false ∧
      (p'.afterCalls readings.length).ahead.Holds others := by
  have given : p.results (readings.map (·.1)).length =
      (readings.map (·.1)).map fun e => some (.ok e) := by
    rw [List.length_map, run.results, List.map_map]
    rfl
  obtain ⟨readings', rest, same, readable, split, ahead⟩ := exists_readable holds given
  -- The spellings are those of the run, because the same items are left.
  rw [List.length_map] at ahead
  obtain rfl := ahead.unique run.ahead
  rw [run.split] at split
  rw [List.append_cancel_right split] at holds'
  rw [← limit] at readable
  obtain ⟨results, ahead'⟩ := results_of_readable running readable holds' stops
  have length : readings'.length = readings.length := by
    rw [← List.length_map (·.1), same, List.length_map]
  have given' : p'.results (readings.map (·.1)).length =
      (readings.map (·.1)).map fun e => some (.ok e) := by
    rw [List.length_map, ← length, results, ← same, List.map_map]
    rfl
  have still := running_of_results running given'
  rw [List.length_map] at given' still
  rw [List.map_map] at given'
  rw [length] at ahead'
  exact ⟨given', still, ahead'⟩

/-- **Results one after the other.** A parser over the spellings of a run, and other items that were
moved and begin with no binary operator, gives the expressions of the run and then what a parser
over the other items gives, in its place. -/
theorem results_append {ρ : Type} [Supply ρ] (run : Run p items readings left failure)
    (holds : p.ahead.Holds items) {q : Parser ρ} {p' : Parser τ} {f : Span → Span}
    {others : List Item} (any : others ≠ []) (stops : nextOperator 0 others = none)
    (holds' : q.ahead.Holds others)
    (holds'' : p'.ahead.Holds
      ((readings.flatMap (·.2)).map .token ++ others.map (.mapSpan f)))
    (running : q.halted = false) (running' : p'.halted = false) (limit : q.limit = p.limit)
    (limit' : p'.limit = p.limit) (calls : Nat) :
    p'.results (readings.length + calls) =
      readings.map (fun reading => some (.ok reading.1)) ++
        (q.results calls).map (Option.map (.mapError (.mapSpan f))) := by
  have moved : Moved f others .origin (others.map (.mapSpan f)) .origin := ⟨rfl, .inr any⟩
  rw [moved.startAlike.nextOperator_eq] at stops
  obtain ⟨first, still, ahead⟩ := run.results_of_holds holds running' limit' holds'' stops
  have later := results_of_moved any holds' ahead running still
    ((limit_afterCalls ..).trans (limit'.trans limit.symm)) calls
  rw [Parser.results_add, first, later]

end Parser.Run

end LoxSyntax
