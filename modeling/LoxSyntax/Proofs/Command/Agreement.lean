import LoxSyntax.Proofs.Command.Sinks
import LoxSyntax.Proofs.Expr.Traces

/-! # What the two commands agree on
Both commands read the same items of a source, one to write them and one to read expressions from
them, and the second one may stop before the last. It leaves no fault behind without saying so: if
it reports nothing it has come to the end of input, so every item before that was a token
(`Parser.Run.left_of_clean`). What it asks the source for is logged as it is for the first command;
so the traces of a dump of expressions are the first ones of a dump of tokens, and all of them if it
reports nothing (`Command.commands_agree`).

1. *Statuses*, told by the lines of a command.
2. *Traces* of the two commands.
3. *Clean runs*, which come to the end of input. -/

namespace LoxSyntax

/-! ## (1) Statuses -/

/-- Some lines write nothing to a channel exactly if none goes there. -/
theorem bytesOn_eq_nil_iff {channel : Channel} {lines : List Line} :
    bytesOn channel lines = [] ↔ ∀ line ∈ lines, line.channel ≠ channel := by
  rw [bytesOn, List.flatMap_eq_nil_iff]
  refine forall_congr' fun line => imp_congr_right fun _ => ?_
  by_cases same : line.channel = channel <;> simp [same, lineBytes]

namespace Command

/-- The lines of a dump of expressions are those of its run. -/
theorem lines_of_run {source : List UInt8} {readings : List (Expr × List Token)}
    {left : List Item} {failure : Option Diagnostic}
    (run : (Parser.ofSupply (Cursor.start source)).Run (scan source) readings left failure)
    (few : readings.length ≤ source.length) :
    parse.lines source = readings.map (fun reading => ⟨.out, reading.1.text⟩) ++
      failure.toList.map fun d => ⟨.err, d.report⟩ := by
  rw [lines, parsed_of_run run few, List.map_append, List.map_map, List.map_map]
  rfl

/-- **The status of a command** tells whether a line goes to the channel of diagnostics. -/
theorem status_transcript (command : Command) (source : List UInt8) :
    (command.transcript source).status =
      statusOf ((command.lines source).any (·.channel = .err)) := by
  cases command with
  | tokenize json =>
      have faults : ∀ item, Item.isFault item = decide ((itemLine json item).channel = .err) := by
        rintro (_ | _) <;> rfl
      have each : (fun step : List Record × Item => step.2.isFault) =
          fun step => decide ((itemLine json step.2).channel = .err) := by
        funext step
        exact faults step.2
      rw [lines, scan, List.any_map, List.any_map]
      exact congrArg (fun test => statusOf ((Cursor.start source).drain.1.any test)) each
  | parse =>
      obtain ⟨readings, left, failure, run, -, few⟩ := exists_run source
      have results : (Parser.ofSupply (Cursor.start source)).results
          ((readings.map (·.1)).length + 1) = outcomes (readings.map (·.1)) failure := by
        rw [List.length_map]
        exact (run.results_add 0).trans (List.append_nil _)
      obtain ⟨-, -, status⟩ := written_parse results (by rwa [List.length_map])
      have silent : (readings.map fun reading => (⟨.out, reading.1.text⟩ : Line)).any
          (·.channel = .err) = false := by
        rw [List.any_map, List.any_eq_false]
        exact fun _ _ => Bool.false_ne_true
      rw [status, lines_of_run run few, List.any_append, silent, Bool.false_or]
      cases failure <;> rfl

/-- A command ends with 0 if it writes nothing to the channel of diagnostics, and with 65 if it
does. -/
theorem status_eq_ite (command : Command) (source : List UInt8) :
    (command.transcript source).status =
      if bytesOn .err (command.lines source) = [] then 0 else 65 := by
  rw [status_transcript, statusOf]
  by_cases silent : bytesOn .err (command.lines source) = []
  · have none := bytesOn_eq_nil_iff.mp silent
    rw [if_pos silent, if_neg (by simpa using none)]
  · have reported : (command.lines source).any (·.channel = .err) = true := by
      rw [bytesOn_eq_nil_iff] at silent
      simpa using silent
    rw [if_neg silent, if_pos reported]
    rfl

/-! ## (2) Traces -/

/-- Steps that log records and then do what logs nothing log the records. -/
theorem filterMap_record?_steps {α : Type} {records : α → List Record} {acts : α → List Action}
    (silent : ∀ step, (acts step).filterMap Action.record? = []) (steps : List α) :
    (steps.flatMap fun step => (records step).map .log ++ acts step).filterMap Action.record? =
      steps.flatMap records := by
  rw [List.filterMap_flatMap]
  congr 1
  funext step
  rw [List.filterMap_append, silent, List.append_nil, List.filterMap_map]
  exact List.filterMap_some

/-- The traces of a dump of tokens are those of the scan. -/
theorem traces_tokenize (json : Bool) (source : List UInt8) :
    traces (((tokenize json).transcript source).actions.filterMap Action.record?) =
      traces ((Cursor.start source).drain.1.flatMap (·.1)) := by
  have silent : ∀ step : List Record × Item,
      [itemAction json step.2].filterMap Action.record? = [] := by
    rintro ⟨_, _ | _⟩ <;> rfl
  rw [transcript, tokenizeTranscript, ← List.singleton_append, List.filterMap_append,
    List.filterMap_append, filterMap_record?_steps silent, traces_append, traces_append]
  exact List.append_nil _

/-- The traces of a dump of expressions are those of the calls of its parser. -/
theorem traces_parse (source : List UInt8) :
    traces ((parse.transcript source).actions.filterMap Action.record?) =
      traces ((Parser.ofSupply (Cursor.start source)).logged (source.length + 1)) := by
  have silent : ∀ step : Step (Parser Cursor) (Except Diagnostic Expr),
      (outcomeActions step.given).filterMap Action.record? = [] := by
    rintro ⟨_, _ | _ | _, _⟩ <;> rfl
  rw [transcript, parseTranscript, ← List.singleton_append, List.filterMap_append,
    List.filterMap_append, filterMap_record?_steps silent, parseSteps, Parser.records_steps,
    traces_append, traces_append]
  exact List.append_nil _

end Command

namespace Cursor

/-- A cursor that gives nothing stays as it is and logs nothing. -/
theorem next_of_none {c : Cursor} (none : c.next.given = .none) : c.next = ⟨[], .none, c⟩ := by
  unfold next at none ⊢
  split at none
  · next ended => rw [if_pos ended]
  · dsimp only at none
    split at none <;> cases none

/-- **What a cursor logs in some calls** are the records of its first items. -/
theorem logged_eq (c : Cursor) (calls : Nat) :
    Supply.logged calls c = (c.drain.1.take calls).flatMap (·.1) := by
  induction calls generalizing c with
  | zero => rfl
  | succ calls ih =>
      rw [Supply.logged, ih]
      change c.next.records ++ (c.next.after.drain.1.take calls).flatMap (·.1) = _
      cases given : c.next.given with
      | some item => rw [drain_of_some given, List.take_succ_cons, List.flatMap_cons]
      | none =>
          have same := next_of_none given
          rw [drain_of_none given, same, drain_of_none given]
          simp

end Cursor

/-! ## (3) Clean runs -/

namespace Parser

variable {σ : Type} [Supply σ]

namespace Run

/-- **A run over a source that meets no error** comes to the end of input, with all items before
it. -/
theorem left_of_clean {source : List UInt8} {readings : List (Expr × List Token)}
    {left : List Item}
    (run : (ofSupply (Cursor.start source)).Run (scan source) readings left none)
    (others : left ≠ []) : ∃ span, left = [.token (.endOfInput span)] := by
  obtain ⟨item, rest, rfl⟩ := List.exists_cons_of_ne_nil others
  obtain ⟨items, -, last, whole, kinds, -⟩ := (scans_scan source).tiling
  -- The run stopped at an end of input, and only the last item is one.
  obtain ⟨t, rfl, kind⟩ : ∃ t, item = .token t ∧ t.kind = .endOfInput := by
    have stopped := (next_eq_none run.running run.last).1
    rw [run.ahead.given_peek] at stopped
    cases item with
    | token t => exact ⟨t, rfl, by simpa [isEnd, Reading.kindOf] using stopped⟩
    | fault d => simp [isEnd, Reading.kindOf] at stopped
  have split := run.split
  rw [whole] at split
  rcases List.eq_nil_or_concat rest with rfl | ⟨rest, final, rfl⟩
  · obtain ⟨-, same⟩ := List.append_inj' split rfl
    exact ⟨last, same.symm⟩
  · rw [List.concat_eq_append, ← List.cons_append, ← List.append_assoc] at split
    obtain ⟨before, -⟩ := List.append_inj' split rfl
    exact absurd kind (kinds t (by simp [before]))

/-- **After a clean run** the supply has given all its items, however often the parser is called. -/
theorem gives_nil {p : Parser σ} {items : List Item} {readings : List (Expr × List Token)}
    {item : Item} (run : Run p items readings [item] none) (more : Nat) :
    Supply.Gives (p.afterCalls (readings.length + (1 + more))).ahead.supply [] := by
  obtain ⟨-, after⟩ := next_eq_none run.running run.last
  rw [afterCalls_add, Nat.add_comm 1, afterCalls, afterCalls_of_halted run.halted, after]
  -- The last item is held by the look that ended the run.
  have held := run.ahead.given_peek
  rw [← Lookahead.held_peek] at held
  obtain ⟨rest, gives, split⟩ := run.ahead.peek
  rw [held] at split
  obtain ⟨-, rfl⟩ := List.cons.inj split
  exact gives

end Run

end Parser

namespace Command

/-- **Where a dump of expressions ends with 0** its run is clean, up to the end of input. -/
theorem exists_clean_run {source : List UInt8} (zero : (parse.transcript source).status = 0) :
    ∃ readings span, (Parser.ofSupply (Cursor.start source)).Run (scan source) readings
      [.token (.endOfInput span)] none ∧ readings.length ≤ source.length := by
  obtain ⟨readings, left, failure, run, others, few⟩ := exists_run source
  rw [status_transcript, lines_of_run run few] at zero
  cases failure with
  | none =>
      obtain ⟨span, rfl⟩ := run.left_of_clean others
      exact ⟨readings, span, run, few⟩
  | some d => simp [statusOf, dataError] at zero

/-- A dump of expressions that reports anything reports one error, after all its expressions. -/
theorem exists_error_of_reported {source : List UInt8}
    (reported : bytesOn .err (parse.lines source) ≠ []) :
    ∃ es d, parsed source = List.map .ok es ++ [.error d] ∧
      bytesOn .err (parse.lines source) = lineBytes d.report := by
  obtain ⟨readings, left, failure, run, -, few⟩ := exists_run source
  have silent : bytesOn .err (readings.map fun reading => ⟨.out, reading.1.text⟩) = [] := by
    rw [bytesOn_eq_nil_iff]
    intro line member
    obtain ⟨reading, -, rfl⟩ := List.mem_map.mp member
    exact Channel.noConfusion
  rw [lines_of_run run few, bytesOn_append, silent, List.nil_append] at reported ⊢
  cases failure with
  | none => exact absurd rfl reported
  | some d =>
      refine ⟨readings.map (·.1), d, ?_, bytesOn_singleton ⟨.err, d.report⟩⟩
      rw [parsed_of_run run few, List.map_map]
      rfl

/-- **Where a dump of expressions ends with 0** a dump of tokens reports nothing. -/
theorem bytesOn_tokenize_of_clean {source : List UInt8}
    (zero : (parse.transcript source).status = 0) (json : Bool) :
    bytesOn .err ((tokenize json).lines source) = [] := by
  obtain ⟨readings, span, run, -⟩ := exists_clean_run zero
  have tokens : ∀ item ∈ scan source, ∃ t, item = .token t := by
    rw [run.split]
    intro item member
    rcases List.mem_append.mp member with member | member
    · obtain ⟨t, -, rfl⟩ := List.mem_map.mp member
      exact ⟨t, rfl⟩
    · exact ⟨_, List.mem_singleton.mp member⟩
  rw [bytesOn_eq_nil_iff]
  intro line member
  obtain ⟨item, inside, rfl⟩ := List.mem_map.mp member
  obtain ⟨t, rfl⟩ := tokens item inside
  exact Channel.noConfusion

/-- **The traces of a dump of expressions** are the first ones of a dump of tokens, and all of them
if it ends with 0. -/
theorem traces_parse_isPrefix (json : Bool) (source : List UInt8) :
    let traced := fun command : Command =>
      traces ((command.transcript source).actions.filterMap Action.record?)
    traced parse <+: traced (tokenize json) ∧
      ((parse.transcript source).status = 0 → traced parse = traced (tokenize json)) := by
  intro traced
  obtain ⟨calls, supply, logged⟩ :=
    (Parser.ofSupply (Cursor.start source)).asked_afterCalls (source.length + 1)
  have first : traced parse =
      traces (((Cursor.start source).drain.1.take calls).flatMap (·.1)) := by
    rw [← Cursor.logged_eq]
    exact (traces_parse source).trans logged
  have whole : traced (tokenize json) = traces ((Cursor.start source).drain.1.flatMap (·.1)) :=
    traces_tokenize json source
  have isFirst : ((Cursor.start source).drain.1.take calls).flatMap (·.1) <+:
      (Cursor.start source).drain.1.flatMap (·.1) :=
    ⟨((Cursor.start source).drain.1.drop calls).flatMap (·.1), by
      rw [← List.flatMap_append, List.take_append_drop]⟩
  rw [first, whole]
  refine ⟨isPrefix_traces isFirst, fun zero => ?_⟩
  -- After a clean run the scan was asked for each of its items.
  obtain ⟨readings, span, run, few⟩ := exists_clean_run zero
  obtain ⟨more, enough⟩ := Nat.le.dest few
  have nothing := run.gives_nil more
  rw [show readings.length + (1 + more) = source.length + 1 by omega, supply] at nothing
  have all := (Cursor.gives_start source).length_le nothing
  rw [scan, List.length_map] at all
  rw [List.take_of_length_le all]

/-- **The two commands agree.** Without limits no command fails. Each ends with 65 exactly if it has
written diagnostics, and with 0 otherwise. What a dump of expressions writes there is the report of
one error, the last of its items. If it ends with 0 then so does a dump of tokens. The traces it
logs are the first ones of a dump of tokens, and all of them if it ends with 0. -/
theorem commands_agree (source : List UInt8) :
    (∀ command : Command, (command.unlimited source).2 = none) ∧
      let status := fun command : Command => (command.transcript source).status
      let err := fun command : Command => (command.unlimited source).1.err.kept.toList
      let traced := fun command : Command => traces (command.unlimited source).1.log.toList
      (∀ command, status command = if err command = [] then 0 else 65) ∧
      (err parse ≠ [] → ∃ es d, parsed source = List.map .ok es ++ [.error d] ∧
        err parse = lineBytes d.report) ∧
      (status parse = 0 → ∀ json, status (tokenize json) = 0) ∧
      ∀ json, traced parse <+: traced (tokenize json) ∧
        (status parse = 0 → traced parse = traced (tokenize json)) := by
  refine ⟨fun command => (after_unlimited command source).1, ?_⟩
  intro status err traced
  have errs : ∀ command, err command = bytesOn .err (command.lines source) := fun command =>
    kept_unlimited command source .err
  have traceds : ∀ command, traced command =
      traces ((command.transcript source).actions.filterMap Action.record?) := fun command =>
    congrArg traces (after_unlimited command source).2.log
  have statuses : ∀ command, status command = if err command = [] then 0 else 65 := by
    intro command
    rw [errs]
    exact status_eq_ite command source
  refine ⟨statuses, ?_, ?_, ?_⟩
  · rw [errs]
    exact exists_error_of_reported
  · intro zero json
    rw [statuses, errs, if_pos (bytesOn_tokenize_of_clean zero json)]
  · intro json
    rw [traceds, traceds]
    exact traces_parse_isPrefix json source

end Command

end LoxSyntax
