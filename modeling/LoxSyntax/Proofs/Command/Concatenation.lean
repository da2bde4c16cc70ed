import LoxSyntax.Proofs.Command.Agreement
import LoxSyntax.Proofs.Expr.Succession
import LoxSyntax.Proofs.Lexical.Joined

/-! # Dumps of joined sources
Where a dump of expressions ends with 0 it leaves nothing open: no quote, no comment, no group. So a
newline and another source after it are read as if they stood alone, if the other source does not
begin with a binary operator, which would go on with the last expression. The dump of the whole has
the expressions of both, and an error of the other one as many lines further on as come before it
(`Command.parse_append_newline`).

1. *Items* of the two dumps, one after the other.
2. *Lines* of the two dumps. -/

namespace LoxSyntax

open Reading

namespace Command

variable {s t : List UInt8}

/-! ## (1) Items -/

/-- Where a place of a source is when the source comes after another one and a newline. -/
def past (s : List UInt8) : Span → Span := .shift (s.length + 1) (s.count Byte.newline + 1)

/-- **What a parser gives over joined sources**: the items of a dump of the first, if that ends with
0, and then what a parser gives over the second, in its place. -/
theorem results_append_newline (zero : (parse.transcript s).status = 0)
    (starts : nextOperator 0 (scan t) = none) (calls : Nat) :
    (Parser.ofSupply (Cursor.start (s ++ Byte.newline :: t))).results ((parsed s).length + calls) =
      (parsed s).map some ++ ((Parser.ofSupply (Cursor.start t)).results calls).map
        (Option.map (.mapError (.mapSpan (past s)))) := by
  obtain ⟨readings, span, run, few⟩ := exists_clean_run zero
  -- All items of the first source are tokens, so it has no quote that is not closed.
  have closed : ∀ item ∈ (readings.flatMap (·.2)).map Item.token, item.isUnclosed = false := by
    intro item member
    obtain ⟨token, -, rfl⟩ := List.mem_map.mp member
    rfl
  have joined := scan_append_newline run.split closed t
  have any : scan t ≠ [] := by
    obtain ⟨items, -, last, split, -⟩ := (scans_scan t).tiling
    simp [split]
  have whole : (Lookahead.ofSupply (Cursor.start (s ++ Byte.newline :: t))).Holds
      (scan (s ++ Byte.newline :: t)) := Lookahead.holds_ofSupply (Cursor.gives_start _)
  rw [joined] at whole
  have items : parsed s = readings.map (.ok ·.1) := by
    rw [parsed_of_run run few]
    exact List.append_nil _
  rw [items, List.length_map, List.map_map]
  refine run.results_append (Lookahead.holds_ofSupply (Cursor.gives_start s)) any starts
    (Lookahead.holds_ofSupply (Cursor.gives_start t)) whole ?_ ?_ ?_ ?_ calls <;> rfl

/-- **The items of a dump of joined sources**: those of the first, if its dump ends with 0, and
those of the second in their places. -/
theorem parsed_append_newline (zero : (parse.transcript s).status = 0)
    (starts : nextOperator 0 (scan t) = none) :
    parsed (s ++ Byte.newline :: t) =
      parsed s ++ (parsed t).map (.mapError (.mapSpan (past s))) := by
  have values (items : List (Except Diagnostic Expr)) (more : Nat) :
      (items.map some ++ List.replicate more none).filterMap id = items := by
    rw [List.filterMap_append, List.filterMap_replicate_of_none rfl, List.append_nil,
      List.filterMap_map]
    exact List.filterMap_some
  have given (more : Nat) : (Parser.ofSupply (Cursor.start (s ++ Byte.newline :: t))).results
      ((parsed s).length + ((parsed t).length + more)) =
        List.map some (parsed s ++ (parsed t).map (.mapError (.mapSpan (past s)))) ++
          List.replicate more none := by
    rw [results_append_newline zero starts, results_eq_parsed, List.map_append, List.map_replicate,
      List.map_append, List.map_map, List.map_map, List.append_assoc]
    rfl
  -- So many calls are enough for each of the three dumps.
  have whole := results_eq_parsed (s ++ Byte.newline :: t) ((parsed s).length + (parsed t).length)
  rw [Nat.add_comm, Nat.add_assoc, given] at whole
  have same := congrArg (List.filterMap id) whole
  rw [values, values] at same
  exact same.symm

/-- The expressions of a dump of joined sources. -/
theorem expressions_append_newline (zero : (parse.transcript s).status = 0)
    (starts : nextOperator 0 (scan t) = none) :
    expressions (s ++ Byte.newline :: t) = expressions s ++ expressions t := by
  rw [expressions, parsed_append_newline zero starts, List.filterMap_append, List.filterMap_map]
  refine congrArg (expressions s ++ List.filterMap · (parsed t)) (funext fun item => ?_)
  cases item <;> rfl

/-- The errors of a dump of joined sources. -/
theorem errors_append_newline (zero : (parse.transcript s).status = 0)
    (starts : nextOperator 0 (scan t) = none) :
    errors (s ++ Byte.newline :: t) = (errors t).map (.mapSpan (past s)) := by
  obtain ⟨readings, span, run, few⟩ := exists_clean_run zero
  have silent : errors s = [] := errors_of_run run few
  rw [errors] at silent
  rw [errors, parsed_append_newline zero starts, List.filterMap_append, silent, List.nil_append,
    List.filterMap_map, errors, List.map_filterMap]
  refine congrArg (List.filterMap · (parsed t)) (funext fun item => ?_)
  cases item <;> rfl

/-! ## (2) Lines -/

/-- The report of an error after another source and a newline counts the line on. -/
theorem report_past {d : Diagnostic} {line : Nat} (place : d.line? = some line) :
    (d.mapSpan (past s)).report =
      s!"[line {line + (s.count Byte.newline + 1)}] {d.message}" := by
  have moved : (d.mapSpan (past s)).line? = d.line?.map (· + (s.count Byte.newline + 1)) := by
    cases d <;> rfl
  rw [place] at moved
  rw [Diagnostic.report, moved, Diagnostic.message_mapSpan]
  rfl

/-- **An error of a dump** is about a line of the source. -/
theorem exists_line_of_mem_errors {source : List UInt8} {d : Diagnostic}
    (given : d ∈ errors source) : ∃ line, d.line? = some line := by
  rcases origin_of_mem_errors given with fault | ⟨token, -, fails⟩
  · obtain ⟨span, place, -⟩ := (scans_scan source).line fault
    exact ⟨span.line, congrArg (Option.map Span.line) place⟩
  · cases fails <;> exact ⟨_, rfl⟩

/-- A dump of expressions reports one error at most. -/
theorem errors_eq_nil_or (source : List UInt8) :
    errors source = [] ∨ ∃ d, errors source = [d] := by
  obtain ⟨readings, left, failure, run, -, few⟩ := exists_run source
  rw [errors_of_run run few]
  cases failure with
  | none => exact .inl rfl
  | some d => exact .inr ⟨d, rfl⟩

/-- What a dump of expressions writes without limits: a line for each expression, and one for each
error. -/
theorem kept_parse (source : List UInt8) :
    (parse.unlimited source).1.out.kept.toList = (expressions source).flatMap (lineBytes ·.text) ∧
      (parse.unlimited source).1.err.kept.toList =
        (errors source).flatMap (lineBytes ·.report) := by
  have out := kept_unlimited parse source .out
  have err := kept_unlimited parse source .err
  rw [bytesOn_eq_flatMap, textsOn_out_parse, List.flatMap_map] at out
  rw [bytesOn_eq_flatMap, textsOn_err_parse, List.flatMap_map] at err
  exact ⟨out, err⟩

/-- **A dump of two sources joined by a newline.** Let a dump of expressions of the first source end
with 0, and let the second one not begin with a binary operator. Then a dump of the two, without
limits, does not fail, writes the results of both dumps, and ends with the status of the second one.
If the second one reports nothing then neither does it; otherwise it makes the same report, with the
line counted on from those of the first source. -/
theorem parse_append_newline (zero : (parse.transcript s).status = 0)
    (starts : ∀ token, (scan t).head? = some (.token token) →
      ∀ op : BinaryOp, token.kind ≠ op.kind) :
    let whole := s ++ Byte.newline :: t
    let status := fun source => (parse.transcript source).status
    let out := fun source => (parse.unlimited source).1.out.kept.toList
    let err := fun source => (parse.unlimited source).1.err.kept.toList
    (parse.unlimited whole).2 = none ∧ out whole = out s ++ out t ∧ status whole = status t ∧
      (err t = [] ∧ err whole = [] ∨ ∃ d line, errors t = [d] ∧ d.line? = some line ∧
        err t = lineBytes s!"[line {line}] {d.message}" ∧
        err whole = lineBytes s!"[line {line + (s.count Byte.newline + 1)}] {d.message}") := by
  intro whole status out err
  have starts : nextOperator 0 (scan t) = none := nextOperator_eq_none_of_head? starts
  have outs : ∀ source, out source = (expressions source).flatMap (lineBytes ·.text) :=
    fun source => (kept_parse source).1
  have errs : ∀ source, err source = (errors source).flatMap (lineBytes ·.report) :=
    fun source => (kept_parse source).2
  have statuses : ∀ source, status source = if err source = [] then 0 else 65 := by
    intro source
    rw [show err source = _ from kept_unlimited parse source .err]
    exact status_eq_ite parse source
  have both : out whole = out s ++ out t := by
    rw [outs, expressions_append_newline zero starts, List.flatMap_append, ← outs, ← outs]
  have moved := errs whole
  rw [errors_append_newline zero starts] at moved
  rw [statuses, statuses]
  refine ⟨(after_unlimited parse whole).1, both, ?_⟩
  rcases errors_eq_nil_or t with none | ⟨d, one⟩
  · have silent : err t = [] ∧ err whole = [] := by
      rw [moved, errs, none]
      exact ⟨rfl, rfl⟩
    rw [if_pos silent.1, if_pos silent.2]
    exact ⟨rfl, .inl silent⟩
  · obtain ⟨line, place⟩ := exists_line_of_mem_errors (one ▸ List.mem_singleton_self d)
    have reported : err t = lineBytes s!"[line {line}] {d.message}" := by
      rw [errs, one, List.flatMap_singleton, Diagnostic.report, place]
    have counted :
        err whole = lineBytes s!"[line {line + (s.count Byte.newline + 1)}] {d.message}" := by
      rw [moved, one, List.map_singleton, List.flatMap_singleton, report_past place]
    have written (text : String) : lineBytes text ≠ [] := List.concat_ne_nil _ _
    rw [reported, counted, if_neg (written _), if_neg (written _)]
    exact ⟨rfl, .inr ⟨d, line, one, place, rfl, rfl⟩⟩

/-- A dump that reports an error on line 2 reports it on line 4 after a source with a newline in it,
which ends in a comment. -/
theorem parse_append_newline_comment :
    let s := Utf8.encode "1\n+ 2 //"
    let t := Utf8.encode "!true\n)"
    let whole := s ++ Byte.newline :: t
    (parse.transcript s).status = 0 ∧
      (∀ token, (scan t).head? = some (.token token) → ∀ op : BinaryOp, token.kind ≠ op.kind) ∧
      (parse.unlimited t).1.err.kept.toList =
        Utf8.encode "[line 2] Error at ')': Expected expression\n" ∧
      (parse.unlimited whole).2 = none ∧ (parse.transcript whole).status = 65 ∧
      (parse.unlimited whole).1.out.kept.toList = Utf8.encode "(+ 1.0 2.0)\n(! true)\n" ∧
      (parse.unlimited whole).1.err.kept.toList =
        Utf8.encode "[line 4] Error at ')': Expected expression\n" := by
  intro s t whole
  have zero : (parse.transcript s).status = 0 := by
    decide +kernel
  have starts : ∀ token, (scan t).head? = some (.token token) →
      ∀ op : BinaryOp, token.kind ≠ op.kind := by
    intro token first op
    have bang : (scan t).head? = some (.token ⟨.bang, "!", none, ⟨0, 1, 1⟩⟩) := by
      decide +kernel
    cases first.symm.trans bang
    cases op <;> decide
  obtain ⟨done, out, status, err⟩ := parse_append_newline zero starts
  have failed : (parse.transcript t).status = 65 ∧ (parse.unlimited t).1.err.kept.toList =
      Utf8.encode "[line 2] Error at ')': Expected expression\n" := by
    decide +kernel
  have error : errors t = [.expectedExpression "')'" ⟨6, 7, 2⟩] := by
    decide +kernel
  refine ⟨zero, starts, failed.2, done, status.trans failed.1, out.trans (by decide +kernel), ?_⟩
  rcases err with ⟨silent, -⟩ | ⟨d, line, one, place, -, counted⟩
  · exact absurd (failed.2.symm.trans silent) (by decide +kernel)
  · cases error.symm.trans one
    cases place
    exact counted.trans (by decide +kernel)

end Command

end LoxSyntax
