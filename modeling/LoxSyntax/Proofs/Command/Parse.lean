import LoxSyntax.Command
import LoxSyntax.Proofs.Expr.Runs

/-! # Dumps of expressions
A dump of expressions takes the steps of a parser up to the first that gives no expression. So what
it writes, and the status that it ends with, can be told from what the calls of the parser give: a
line for each expression, and a report if an error comes after them (`Command.written_parse`). -/

namespace LoxSyntax

namespace Parser

variable {σ : Type} [Supply σ]

/-- **Steps give what calls give**, up to the first that gives no expression. -/
theorem map_given_steps {p : Parser σ} {es : List Expr} {failure : Option Diagnostic} {calls : Nat}
    (results : p.results (es.length + 1) = outcomes es failure) (enough : es.length < calls) :
    (p.steps calls).map (·.given) = outcomes es failure := by
  induction es generalizing p calls with
  | nil =>
      obtain ⟨calls, rfl⟩ : ∃ less, calls = less + 1 := ⟨calls - 1, by omega⟩
      obtain ⟨given, -⟩ := List.cons.inj results
      -- The last result is no expression, and the steps end with it.
      have stops : goesOn p.next = false := by
        rw [goesOn, given]
        cases failure <;> rfl
      rw [steps_succ, stops, List.map_cons, given]
      rfl
  | cons e es ih =>
      rw [List.length_cons] at enough
      obtain ⟨calls, rfl⟩ : ∃ less, calls = less + 1 := ⟨calls - 1, by omega⟩
      obtain ⟨given, later⟩ := List.cons.inj results
      have goes : goesOn p.next = true := by
        rw [goesOn, given]
      rw [steps_succ, if_pos goes, List.map_cons, given, ih later (by omega)]
      rfl

end Parser

namespace Command

/-- Records are logged, not written. -/
theorem written_log (records : List Record) (status : Nat) (channel : Channel) :
    (Transcript.mk (records.map .log) status).written channel = [] := by
  induction records with
  | nil => rfl
  | cons record records ih => exact ih

/-- What an outcome writes. -/
def outcomeBytes (channel : Channel) (outcome : Option (Except Diagnostic Expr)) : List UInt8 :=
  (Transcript.mk (outcomeActions outcome) 0).written channel

/-- A dump of expressions writes what the outcomes of its steps write. -/
theorem written_parseSteps (source : List UInt8) (channel : Channel) :
    (parse.transcript source).written channel =
      ((parseSteps source).map (·.given)).flatMap (outcomeBytes channel) := by
  have steps : ∀ (steps : List (Step (Parser Cursor) (Except Diagnostic Expr))) (status : Nat),
      (Transcript.mk (steps.flatMap fun step => step.records.map .log ++ outcomeActions step.given)
        status).written channel = (steps.map (·.given)).flatMap (outcomeBytes channel) := by
    intro steps status
    induction steps with
    | nil => rfl
    | cons step steps ih =>
        rw [List.flatMap_cons, Transcript.written_append, Transcript.written_append, written_log,
          List.nil_append, ih, List.map_cons, List.flatMap_cons]
        rfl
  rw [transcript, parseTranscript, Transcript.written_append, ← List.singleton_append,
    Transcript.written_append, steps]
  exact List.append_nil _

/-- What a run of outcomes writes. -/
theorem flatMap_outcomeBytes (es : List Expr) (failure : Option Diagnostic) :
    (outcomes es failure).flatMap (outcomeBytes .out) = es.flatMap (lineBytes ·.text) ∧
      (outcomes es failure).flatMap (outcomeBytes .err) =
        failure.toList.flatMap (lineBytes ·.report) := by
  cases failure <;>
    simp [outcomes, outcomeBytes, outcomeActions, Transcript.written, List.flatMap_map]

/-- **What a dump of expressions writes**: a line for each expression that the calls of its parser
give, and the report of the error after them, if there is one. The status tells whether there is. -/
theorem written_parse {source : List UInt8} {es : List Expr} {failure : Option Diagnostic}
    (results : (Parser.ofSupply (Cursor.start source)).results (es.length + 1) =
      outcomes es failure) (enough : es.length ≤ source.length) :
    (parse.transcript source).written .out = es.flatMap (lineBytes ·.text) ∧
      (parse.transcript source).written .err = failure.toList.flatMap (lineBytes ·.report) ∧
      (parse.transcript source).status = statusOf failure.isSome := by
  have given : (parseSteps source).map (·.given) = outcomes es failure :=
    Parser.map_given_steps results (Nat.lt_succ_of_le enough)
  have reported : (parseSteps source).any (isError ·.given) = failure.isSome := by
    have any : ((parseSteps source).map (·.given)).any isError =
        (parseSteps source).any (isError ·.given) := List.any_map
    rw [← any, given]
    cases failure <;> simp [outcomes, isError]
  rw [written_parseSteps, written_parseSteps, given]
  obtain ⟨out, err⟩ := flatMap_outcomeBytes es failure
  exact ⟨out, err, congrArg statusOf reported⟩

end Command

end LoxSyntax
