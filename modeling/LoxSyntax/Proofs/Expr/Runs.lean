import LoxSyntax.Proofs.Expr.Position
import LoxSyntax.Proofs.Expr.Soundness

/-! # Runs of a parser
Over every finite supply the calls of a parser come to an end (`Parser.exists_run`): they give
expressions, whose spellings are the first of the items ahead, and then an error or nothing. -/

namespace LoxSyntax

/-- **A run of outcomes**: expressions, and after them an error or nothing. -/
def outcomes (es : List Expr) (failure : Option Diagnostic) :
    List (Option (Except Diagnostic Expr)) :=
  es.map (fun e => some (.ok e)) ++ [failure.map .error]

namespace Parser

variable {σ : Type} [Supply σ]

/-- A call that gives an expression leaves a parser that still runs. -/
theorem running_of_next {p : Parser σ} {e : Expr} (given : p.next.given = some (.ok e)) :
    p.next.after.halted = false := by
  obtain ⟨running, r, -, after⟩ := next_eq_ok given
  rw [after]
  exact running

/-- **A run of a parser** that has some items ahead: expressions with the tokens that spell them,
the items left after those, and the error that ends it, if one does. -/
structure Run (p : Parser σ) (items : List Item) (readings : List (Expr × List Token))
    (left : List Item) (failure : Option Diagnostic) : Prop where
  /-- The spellings, one after the other, are the first of the items ahead. -/
  split : items = (readings.flatMap (·.2)).map .token ++ left
  /-- Each expression is spelled by its tokens. -/
  spells : ∀ reading ∈ readings, reading.1.Spells reading.2
  /-- The calls before the last one give the expressions. -/
  results : p.results readings.length = readings.map fun reading => some (.ok reading.1)
  /-- Before the last call the parser runs. -/
  running : (p.afterCalls readings.length).halted = false
  /-- Before the last call it has the other items ahead. -/
  ahead : (p.afterCalls readings.length).ahead.Holds left
  /-- The last call gives an error or nothing. -/
  last : (p.afterCalls readings.length).next.given = failure.map .error

/-- **Runs end**: over every finite list of items ahead a parser has a run. -/
theorem exists_run {p : Parser σ} {items : List Item} (holds : p.ahead.Holds items)
    (running : p.halted = false) : ∃ readings left failure, Run p items readings left failure := by
  induction size : items.length using Nat.strongRecOn generalizing p items with
  | ind n ih =>
    by_cases given : ∃ e, p.next.given = some (.ok e)
    · obtain ⟨e, given⟩ := given
      obtain ⟨ts, rest, rfl, holds', spells, -⟩ := spells_of_next holds given
      -- A spelling has a token at least, so fewer items are left.
      have fewer : rest.length < n := by
        have taken := spells.height_lt_length
        rw [List.length_append, List.length_map] at size
        omega
      obtain ⟨readings, left, failure, run⟩ := ih _ fewer holds' (running_of_next given) rfl
      refine ⟨(e, ts) :: readings, left, failure, ?_, ?_, ?_, run.running, run.ahead, run.last⟩
      · rw [run.split, List.flatMap_cons, List.map_append, List.append_assoc]
      · exact List.forall_mem_cons.mpr ⟨spells, run.spells⟩
      · rw [List.length_cons, Parser.results, given, run.results, List.map_cons]
    · obtain ⟨failure, last⟩ : ∃ failure : Option Diagnostic,
          p.next.given = failure.map .error := by
        cases outcome : p.next.given with
        | none => exact ⟨none, rfl⟩
        | some result =>
            cases result with
            | ok e => exact absurd ⟨e, outcome⟩ given
            | error d => exact ⟨some d, rfl⟩
      exact ⟨[], items, failure, rfl, List.forall_mem_nil _, rfl, running, holds, last⟩

namespace Run

variable {p : Parser σ} {items left : List Item} {readings : List (Expr × List Token)}
  {failure : Option Diagnostic}

/-- After its last call a run gives nothing more. -/
theorem halted (run : Run p items readings left failure) :
    (p.afterCalls readings.length).next.after.halted = true := by
  apply halted_after_next
  rw [run.last]
  cases failure <;> simp

/-- What the calls of a run and so many after it give. -/
theorem results_add (run : Run p items readings left failure) (more : Nat) :
    p.results (readings.length + (1 + more)) =
      outcomes (readings.map (·.1)) failure ++ List.replicate more none := by
  rw [Parser.results_add, run.results, Nat.add_comm 1, Parser.results, run.last,
    results_of_halted run.halted, outcomes, List.map_map, List.append_assoc]
  rfl

/-- The end of input is not among the tokens of a run. -/
theorem kind_ne_endOfInput (run : Run p items readings left failure) :
    ∀ t ∈ readings.flatMap (·.2), t.kind ≠ .endOfInput := by
  intro t member
  obtain ⟨reading, among, inside⟩ := List.mem_flatMap.mp member
  have walked := Expr.Position.walk_of_spells (run.spells reading among) 0
  exact Expr.Position.kind_ne_endOfInput_of_walk walked t inside

/-- A run takes a token at least for each expression. -/
theorem length_le (run : Run p items readings left failure) :
    readings.length + left.length ≤ items.length := by
  have taken : ∀ readings : List (Expr × List Token),
      (∀ reading ∈ readings, reading.1.Spells reading.2) →
      readings.length ≤ (readings.flatMap (·.2)).length := by
    intro readings spells
    induction readings with
    | nil => exact Nat.zero_le _
    | cons reading readings ih =>
        have first := (spells reading List.mem_cons_self).height_lt_length
        have others := ih fun reading member => spells reading (List.mem_cons_of_mem _ member)
        rw [List.flatMap_cons, List.length_append, List.length_cons]
        omega
  have length := taken readings run.spells
  rw [run.split, List.length_append, List.length_map]
  omega

end Run

end Parser

end LoxSyntax
