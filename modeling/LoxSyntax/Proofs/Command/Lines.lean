import LoxSyntax.Proofs.Command.Parse
import LoxSyntax.Proofs.Lexical.Requests

/-! # The lines of a command
A command writes one line for each of its items, in their order. The items of a dump of tokens are
those of the scan. The items of a dump of expressions are what the calls of the parser give, which
come to an end over every finite supply (`Parser.exists_run`): expressions, and perhaps an error
after them (`Command.parsed`). So the lines of a command are told by its items alone
(`Command.lines_transcript`), and what it writes to a channel by those of its lines that go there.

1. *Lines of a transcript*.
2. *Items of a command*, and their lines. -/

namespace LoxSyntax

/-! ## (1) Lines of a transcript -/

/-- A **line** that is written to a channel. -/
structure Line where
  /-- The channel it goes to. -/
  channel : Channel
  /-- The text before its newline. -/
  text : String
deriving DecidableEq, Repr

/-- The line that an action writes, if it writes one. -/
def Action.line? : Action → Option Line
  | write channel text => some ⟨channel, text⟩
  | log _ | flush => none

/-- **What lines write to a channel**: those of them that go there, with their newlines. -/
def bytesOn (channel : Channel) (lines : List Line) : List UInt8 :=
  lines.flatMap fun line => if line.channel = channel then lineBytes line.text else []

@[simp] theorem bytesOn_nil (channel : Channel) : bytesOn channel [] = [] := rfl

theorem bytesOn_cons (channel : Channel) (line : Line) (lines : List Line) :
    bytesOn channel (line :: lines) =
      (if line.channel = channel then lineBytes line.text else []) ++ bytesOn channel lines :=
  List.flatMap_cons

theorem bytesOn_append (channel : Channel) (first second : List Line) :
    bytesOn channel (first ++ second) = bytesOn channel first ++ bytesOn channel second :=
  List.flatMap_append

/-- A line writes to no other channel. -/
theorem bytesOn_singleton_of_ne {line : Line} {channel : Channel} (other : line.channel ≠ channel) :
    bytesOn channel [line] = [] := by
  rw [bytesOn_cons, if_neg other]
  rfl

/-- A line writes its text and a newline to its channel. -/
theorem bytesOn_singleton (line : Line) : bytesOn line.channel [line] = lineBytes line.text := by
  rw [bytesOn_cons, if_pos rfl, bytesOn_nil, List.append_nil]

/-- The texts of the lines that go to a channel. -/
def textsOn (channel : Channel) (lines : List Line) : List String :=
  (lines.filter (·.channel = channel)).map (·.text)

/-- What lines write to a channel are their texts there, each with a newline. -/
theorem bytesOn_eq_flatMap (channel : Channel) (lines : List Line) :
    bytesOn channel lines = (textsOn channel lines).flatMap lineBytes := by
  induction lines with
  | nil => rfl
  | cons line lines ih =>
      rw [bytesOn_cons, ih, textsOn, textsOn, List.filter_cons]
      by_cases same : line.channel = channel
      · rw [if_pos same, if_pos (decide_eq_true same), List.map_cons, List.flatMap_cons]
      · rw [if_neg same, if_neg (by simpa using same)]
        rfl

/-! ## (2) Items of a command -/

namespace Command

/-- **A run over a source**: the parser comes to an end of its run in as many steps as a dump of
expressions takes, with items left. -/
theorem exists_run (source : List UInt8) :
    ∃ readings left failure,
      (Parser.ofSupply (Cursor.start source)).Run (scan source) readings left failure ∧
        left ≠ [] ∧ readings.length ≤ source.length := by
  obtain ⟨readings, left, failure, run⟩ :=
    Parser.exists_run (p := Parser.ofSupply (Cursor.start source))
      (Lookahead.holds_ofSupply (Cursor.gives_start source)) rfl
  -- The last item of a scan is the end of input, which no expression is spelled with.
  have others : left ≠ [] := by
    rintro rfl
    obtain ⟨items, -, last, split, -⟩ := (scans_scan source).tiling
    have member : .token (.endOfInput last) ∈ scan source := by simp [split]
    rw [run.split, List.append_nil] at member
    obtain ⟨t, inside, same⟩ := List.mem_map.mp member
    cases same
    exact run.kind_ne_endOfInput _ inside rfl
  have few := (scans_scan source).length_le
  have length := run.length_le
  have pos := List.length_pos_iff.mpr others
  exact ⟨readings, left, failure, run, others, by omega⟩

/-- **The items of a dump of expressions**: what the calls of the parser give over a source, up to
the first that gives nothing. -/
def parsed (source : List UInt8) : List (Except Diagnostic Expr) :=
  ((Parser.ofSupply (Cursor.start source)).results (source.length + 1)).filterMap id

/-- The items of a dump are the expressions of its run, and the error after them. -/
theorem parsed_of_run {source : List UInt8} {readings : List (Expr × List Token)}
    {left : List Item} {failure : Option Diagnostic}
    (run : (Parser.ofSupply (Cursor.start source)).Run (scan source) readings left failure)
    (few : readings.length ≤ source.length) :
    parsed source = readings.map (.ok ·.1) ++ failure.toList.map .error := by
  obtain ⟨more, enough⟩ := Nat.le.dest few
  have calls : source.length + 1 = readings.length + (1 + more) := by omega
  have values : ((readings.map (·.1)).map fun e => some (.ok e)).filterMap id =
      readings.map fun reading => (.ok reading.1 : Except Diagnostic Expr) := by
    rw [List.map_map, List.filterMap_map]
    exact congrFun List.filterMap_eq_map _
  rw [parsed, calls, run.results_add, outcomes, List.filterMap_append, List.filterMap_append,
    List.filterMap_replicate_of_none rfl, List.append_nil, values]
  cases failure <;> rfl

/-- **What the parser gives over a source**, however often it is called: the items of a dump, and
then nothing. -/
theorem results_eq_parsed (source : List UInt8) (more : Nat) :
    (Parser.ofSupply (Cursor.start source)).results ((parsed source).length + more) =
      (parsed source).map some ++ List.replicate more none := by
  obtain ⟨readings, left, failure, run, -, few⟩ := exists_run source
  rw [parsed_of_run run few]
  cases failure with
  | none =>
      cases more with
      | zero => simp [run.results]
      | succ more =>
          have results := run.results_add more
          rw [Nat.add_comm 1] at results
          simp [results, outcomes, List.replicate_succ]
  | some d =>
      have results := run.results_add more
      simp [← Nat.add_assoc, outcomes] at results ⊢
      exact results

/-- The tokens among the items of a source. -/
def tokens (source : List UInt8) : List Token :=
  (scan source).filterMap fun
    | .token t => some t
    | .fault _ => none

/-- The faults among the items of a source. -/
def faults (source : List UInt8) : List Diagnostic :=
  (scan source).filterMap fun
    | .token _ => none
    | .fault d => some d

/-- The expressions among the items of a dump. -/
def expressions (source : List UInt8) : List Expr :=
  (parsed source).filterMap fun
    | .ok e => some e
    | .error _ => none

/-- The errors among the items of a dump. -/
def errors (source : List UInt8) : List Diagnostic :=
  (parsed source).filterMap fun
    | .ok _ => none
    | .error d => some d

/-- What a partial inverse picks out of a list. -/
theorem mem_filterMap_iff {α β : Type} {f : α → Option β} {g : β → α} {list : List α} {b : β}
    (inverse : ∀ a, f a = some b ↔ a = g b) : b ∈ list.filterMap f ↔ g b ∈ list := by
  simp only [List.mem_filterMap, inverse, exists_eq_right]

theorem mem_tokens {source : List UInt8} {t : Token} :
    t ∈ tokens source ↔ .token t ∈ scan source :=
  mem_filterMap_iff fun item => by cases item <;> simp

theorem mem_faults {source : List UInt8} {d : Diagnostic} :
    d ∈ faults source ↔ .fault d ∈ scan source :=
  mem_filterMap_iff fun item => by cases item <;> simp

theorem mem_expressions {source : List UInt8} {e : Expr} :
    e ∈ expressions source ↔ .ok e ∈ parsed source :=
  mem_filterMap_iff fun item => by cases item <;> simp

/-- The errors of a dump are the one that ends its run, if one does. -/
theorem errors_of_run {source : List UInt8} {readings : List (Expr × List Token)}
    {left : List Item} {failure : Option Diagnostic}
    (run : (Parser.ofSupply (Cursor.start source)).Run (scan source) readings left failure)
    (few : readings.length ≤ source.length) : errors source = failure.toList := by
  rw [errors, parsed_of_run run few, List.filterMap_append, List.filterMap_map]
  cases failure <;> simp

/-- **An error of a dump** is a fault of the source, or is about one of its tokens or an end of
input. -/
theorem origin_of_mem_errors {source : List UInt8} {d : Diagnostic} (given : d ∈ errors source) :
    .fault d ∈ scan source ∨
      ∃ t, (.token t ∈ scan source ∨ t.kind = .endOfInput) ∧ Reading.FailsAt t d := by
  obtain ⟨readings, left, failure, run, -, few⟩ := exists_run source
  rw [errors_of_run run few, Option.mem_toList] at given
  cases given
  obtain ⟨-, r, failed, -⟩ := Parser.next_eq_error run.last
  have among : ∀ item ∈ left, item ∈ scan source := by
    intro item member
    rw [run.split]
    exact List.mem_append_right _ member
  rcases Reading.origin_of_error run.ahead.peek failed with fault | ⟨t, place, fails⟩
  · exact .inl (among _ fault)
  · exact .inr ⟨t, place.imp_left (among _), fails⟩

/-- The line of an item of a dump of tokens. -/
def itemLine (json : Bool) : Item → Line
  | .token t => ⟨.out, if json then t.json else t.text⟩
  | .fault d => ⟨.err, d.report⟩

/-- The line of an item of a dump of expressions. -/
def parsedLine : Except Diagnostic Expr → Line
  | .ok e => ⟨.out, e.text⟩
  | .error d => ⟨.err, d.report⟩

/-- **The lines of a command**, one for each item, in their order. -/
def lines : Command → List UInt8 → List Line
  | tokenize json, source => (scan source).map (itemLine json)
  | parse, source => (parsed source).map parsedLine

/-- What lines of items show on a channel: the texts of those items whose lines go there. -/
theorem textsOn_map {α β : Type} {channel : Channel} {line : α → Line} {pick : α → Option β}
    {text : β → String} (shows : ∀ a, textsOn channel [line a] = (pick a).toList.map text)
    (items : List α) : textsOn channel (items.map line) = (items.filterMap pick).map text := by
  have append : ∀ first second, textsOn channel (first ++ second) =
      textsOn channel first ++ textsOn channel second := by
    intro first second
    rw [textsOn, List.filter_append, List.map_append]
    rfl
  induction items with
  | nil => rfl
  | cons a items ih =>
      rw [List.map_cons, ← List.singleton_append, append, ih, shows, List.filterMap_cons]
      cases pick a <;> rfl

/-- A dump of tokens shows its tokens as results. -/
theorem textsOn_out_tokenize (json : Bool) (source : List UInt8) :
    textsOn .out ((tokenize json).lines source) =
      (tokens source).map fun t => if json then t.json else t.text :=
  textsOn_map (fun item => by cases item <;> rfl) _

/-- A dump of tokens shows its faults as diagnostics. -/
theorem textsOn_err_tokenize (json : Bool) (source : List UInt8) :
    textsOn .err ((tokenize json).lines source) = (faults source).map (·.report) :=
  textsOn_map (fun item => by cases item <;> rfl) _

/-- A dump of expressions shows its expressions as results. -/
theorem textsOn_out_parse (source : List UInt8) :
    textsOn .out (parse.lines source) = (expressions source).map (·.text) :=
  textsOn_map (fun item => by cases item <;> rfl) _

/-- A dump of expressions shows its errors as diagnostics. -/
theorem textsOn_err_parse (source : List UInt8) :
    textsOn .err (parse.lines source) = (errors source).map (·.report) :=
  textsOn_map (fun item => by cases item <;> rfl) _

/-- Steps that log records and then do something write the lines of what they do. -/
theorem filterMap_line?_steps {α : Type} (records : α → List Record) (acts : α → List Action)
    (steps : List α) :
    (steps.flatMap fun step => (records step).map .log ++ acts step).filterMap Action.line? =
      steps.flatMap fun step => (acts step).filterMap Action.line? := by
  rw [List.filterMap_flatMap]
  congr 1
  funext step
  have logged : ((records step).map Action.log).filterMap Action.line? = [] := by
    rw [List.filterMap_map, List.filterMap_eq_nil_iff]
    exact fun record _ => rfl
  rw [List.filterMap_append, logged, List.nil_append]

/-- A dump of tokens writes the lines of its items. -/
theorem lines_tokenizeSteps (json : Bool) (source : List UInt8) :
    ((Cursor.start source).drain.1.flatMap fun step =>
      step.1.map .log ++ [itemAction json step.2]).filterMap Action.line? =
        (tokenize json).lines source := by
  have one : ∀ item, [itemAction json item].filterMap Action.line? = [itemLine json item] := by
    intro item
    cases item <;> rfl
  rw [filterMap_line?_steps, lines, scan, List.map_map, List.map_eq_flatMap]
  congr 1
  funext step
  exact one step.2

/-- A run of outcomes writes a line for each expression, and one for the error after them. -/
theorem lines_outcomes (es : List Expr) (failure : Option Diagnostic) :
    ((outcomes es failure).flatMap fun outcome =>
      (outcomeActions outcome).filterMap Action.line?) =
        (es.map Except.ok ++ failure.toList.map Except.error).map parsedLine := by
  induction es with
  | nil => cases failure <;> rfl
  | cons e es ih =>
      rw [outcomes] at ih ⊢
      rw [List.map_cons, List.cons_append, List.flatMap_cons, ih]
      rfl

/-- A dump of expressions writes the lines of its items. -/
theorem lines_parseSteps (source : List UInt8) :
    ((parseSteps source).flatMap fun step =>
      step.records.map .log ++ outcomeActions step.given).filterMap Action.line? =
        parse.lines source := by
  obtain ⟨readings, left, failure, run, -, few⟩ := exists_run source
  have given : (parseSteps source).map (·.given) = outcomes (readings.map (·.1)) failure := by
    apply Parser.map_given_steps
    · rw [List.length_map]
      exact (run.results_add 0).trans (List.append_nil _)
    · rw [List.length_map]
      exact Nat.lt_succ_of_le few
  have written : ((parseSteps source).flatMap fun step =>
      (outcomeActions step.given).filterMap Action.line?) =
        (outcomes (readings.map (·.1)) failure).flatMap fun outcome =>
          (outcomeActions outcome).filterMap Action.line? := by
    rw [← given, List.flatMap_map]
  rw [filterMap_line?_steps, lines, parsed_of_run run few, written, lines_outcomes, List.map_map]
  rfl

/-- **A command writes a line for each of its items**, and after the last one makes sure that they
have arrived. -/
theorem exists_body (command : Command) (source : List UInt8) :
    ∃ body done, (command.transcript source).actions = body ++ [.flush, .log done] ∧
      .flush ∉ body ∧ body.filterMap Action.line? = command.lines source := by
  cases command with
  | tokenize json =>
      refine ⟨.log .tokenizeStart :: _, _, rfl, ?_, lines_tokenizeSteps json source⟩
      have writes : ∀ item : Item, itemAction json item ≠ .flush := by
        intro item
        cases item <;> exact Action.noConfusion
      simp [(writes _).symm]
  | parse =>
      refine ⟨.log .parseStart :: _, _, rfl, ?_, lines_parseSteps source⟩
      have writes : ∀ outcome, Action.flush ∉ outcomeActions outcome := by
        rintro (_ | _ | _) <;> simp [outcomeActions]
      simp [writes]

/-- The lines of a command are those of its transcript. -/
theorem lines_transcript (command : Command) (source : List UInt8) :
    (command.transcript source).actions.filterMap Action.line? = command.lines source := by
  obtain ⟨body, done, actions, -, lines⟩ := exists_body command source
  rw [actions, List.filterMap_append, lines]
  exact List.append_nil _

end Command

end LoxSyntax
