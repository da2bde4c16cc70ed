import LoxSyntax.Proofs.Command.Sinks
import LoxSyntax.Proofs.Text.Newlines

/-! # Newlines in what a command writes
A command writes a line for each of its items, and takes text for it from the source as it is. So a
text literal that goes on over the end of a line does so in the output as well: twice in the dump of
its token, as lexeme and as literal, once in the line of a tree that holds it, and once in the
report of an error that names it. Nothing else brings a newline, so every item has one line exactly
if no token of the source holds a newline (`Command.newlines_written`).

1. *Items of a source*: of their parts only text literals have newlines.
2. *Items of a parser*: its trees and errors show texts of the source.
3. *Streams* of a command. -/

namespace LoxSyntax

/-! ## (1) Items of a source -/

/-- Tokens whose text is fixed show nothing in their literal column. -/
theorem Token.literalText_fixed (k : Kind) (span : Span) :
    (Token.fixed k span).literalText = "null" := by
  cases k <;> rfl

/-- **Newlines of a token** of the grammar: those of its text are those of its literal column, and
of its literal, if that is a text. -/
theorem Lexes.newlines_token {span : Span} {bytes rest : List UInt8} {t : Token}
    (lexes : Lexes span bytes rest (.token t)) :
    newlines t.literalText = newlines t.lexeme ∧
      ∀ s, t.literal = some (.string s) → newlines s = newlines t.lexeme := by
  have null : newlines "null" = 0 := rfl
  have fixed : ∀ k, newlines (Token.fixed k span).literalText =
      newlines (Token.fixed k span).lexeme ∧
      ∀ s, (Token.fixed k span).literal = some (.string s) →
        newlines s = newlines (Token.fixed k span).lexeme := by
    intro k
    refine ⟨?_, ?_⟩
    · rw [Token.literalText_fixed, null]
      exact (Kind.newlines_text k).symm
    · intro s literal
      cases k <;> cases literal
  cases lexes with
  | mark listed => exact fixed _
  | joined listed => exact fixed _
  | alone listed alone => exact fixed _
  | slash alone => exact fixed _
  | reserved starts runs stops listed text => exact fixed _
  | @number b run rest digit runs stops =>
      have first : Byte.isNumeralPart b = true := by rw [Byte.isNumeralPart, digit, Bool.true_or]
      have silent := count_newline_of_forall (List.forall_mem_cons.mpr ⟨first, runs⟩) rfl
      refine ⟨?_, fun s literal => by cases literal⟩
      rw [Utf8.newlines_decode, silent]
      exact Binary64.newlines_plain _
  | identifier starts runs stops other =>
      have first := Byte.isWordPart_of_isWordStart starts
      have silent := count_newline_of_forall (List.forall_mem_cons.mpr ⟨first, runs⟩) rfl
      refine ⟨?_, fun s literal => by cases literal; rfl⟩
      rw [Utf8.newlines_decode, silent]
      exact null
  | @string content rest inside =>
      have same : newlines (Utf8.decode content) =
          newlines (Utf8.decode (Byte.quote :: (content ++ [Byte.quote]))) := by
        rw [Utf8.newlines_decode, Utf8.newlines_decode, List.count_cons_of_ne (by decide),
          List.count_append]
        rfl
      refine ⟨same, ?_⟩
      intro s literal
      cases literal
      exact same

/-- **Newlines of a fault** of the grammar, at bytes that are bare: it shows none. -/
theorem Lexes.newlines_fault {span : Span} {bytes rest : List UInt8} {d : Diagnostic}
    (lexes : Lexes span bytes rest (.fault d)) (bare : IsBare (bytes ++ rest)) :
    newlines d.shown = 0 := by
  cases lexes with
  | unterminated unclosed line ends => rfl
  | @character c rest other =>
      -- A newline is layout, which no item starts with.
      have apart : c ≠ '\n' := by
        rintro rfl
        exact (bare.blank Byte.newline rfl).2.2 rfl
      rw [Diagnostic.shown, newlines_singleton, if_neg apart]
  | byte other broken =>
      rw [Diagnostic.shown, newlines_singleton, if_neg (by decide)]

namespace Command

/-- Every token of a source has as many newlines in its literal column as in its text, and in its
literal if that is a text. -/
theorem newlines_of_mem_tokens {source : List UInt8} {t : Token} (member : t ∈ tokens source) :
    newlines t.literalText = newlines t.lexeme ∧
      ∀ s, t.literal = some (.string s) → newlines s = newlines t.lexeme := by
  rcases (scans_scan source).exists_lexes (mem_tokens.mp member) with ⟨span, last⟩ | lexed
  · cases last
    have silent : newlines (Token.endOfInput span).literalText = newlines "" := by
      change newlines "null" = _
      decide +kernel
    exact ⟨silent, fun s literal => by cases literal⟩
  · obtain ⟨span, bytes, more, -, lexes⟩ := lexed
    exact lexes.newlines_token

/-- The line of a token in plain text holds the newlines of its text twice. -/
theorem newlines_text_of_mem_tokens {source : List UInt8} {t : Token}
    (member : t ∈ tokens source) : newlines t.text = 2 * newlines t.lexeme := by
  change newlines (t.kind.name ++ " " ++ t.lexeme ++ " " ++ t.literalText) = _
  have blank : newlines " " = 0 := rfl
  simp only [newlines_append, Kind.newlines_name, blank, (newlines_of_mem_tokens member).1]
  omega

/-- No fault of a source shows a newline. -/
theorem newlines_of_mem_faults {source : List UInt8} {d : Diagnostic}
    (member : d ∈ faults source) : newlines d.shown = 0 := by
  rcases (scans_scan source).exists_lexes (mem_faults.mp member) with ⟨span, last⟩ | lexed
  · cases last
  · obtain ⟨span, bytes, more, bare, lexes⟩ := lexed
    exact lexes.newlines_fault bare

/-! ## (2) Items of a parser -/

/-- The texts in a tree are literals of the tokens that spell it. -/
theorem exists_of_mem_strings {e : Expr} {ts : List Token} (spells : e.Spells ts) {s : String}
    (member : s ∈ e.strings) : ∃ t ∈ ts, t.literal = some (.string s) := by
  induction spells with
  | @literal t kind =>
      refine ⟨t, List.mem_singleton_self t, ?_⟩
      cases literal : t.literal with
      | none =>
          rw [literal] at member
          cases member
      | some v =>
          rw [literal] at member
          cases v with
          | string s' =>
              cases List.mem_singleton.mp member
              rfl
          | nil => cases member
          | bool b => cases member
          | number x => cases member
  | group opens spells closes ih =>
      obtain ⟨t, inside, literal⟩ := ih member
      exact ⟨t, List.mem_cons_of_mem _ (List.mem_append_left _ inside), literal⟩
  | unary kind spells ih =>
      obtain ⟨t, inside, literal⟩ := ih member
      exact ⟨t, List.mem_cons_of_mem _ inside, literal⟩
  | binary spellsLeft kind spellsRight ihl ihr =>
      rcases List.mem_append.mp member with left | right
      · obtain ⟨t, inside, literal⟩ := ihl left
        exact ⟨t, List.mem_append_left _ inside, literal⟩
      · obtain ⟨t, inside, literal⟩ := ihr right
        exact ⟨t, List.mem_append_right _ (List.mem_cons_of_mem _ inside), literal⟩

/-- The texts in the trees of a parser are literals of its source. -/
theorem exists_token_of_mem_strings {source : List UInt8} {e : Expr}
    (given : e ∈ expressions source) {s : String} (member : s ∈ e.strings) :
    ∃ t ∈ tokens source, t.literal = some (.string s) := by
  obtain ⟨readings, left, failure, run, -, few⟩ := exists_run source
  rw [mem_expressions, parsed_of_run run few, List.mem_append] at given
  rcases given with given | given
  · obtain ⟨reading, among, same⟩ := List.mem_map.mp given
    cases same
    obtain ⟨t, inside, literal⟩ := exists_of_mem_strings (run.spells reading among) member
    refine ⟨t, ?_, literal⟩
    rw [mem_tokens, run.split]
    exact List.mem_append_left _
      (List.mem_map_of_mem (List.mem_flatMap.mpr ⟨reading, among, inside⟩))
  · obtain ⟨d, -, same⟩ := List.mem_map.mp given
    cases same

/-- An error of a parser is a fault of its source, or shows what names a token there. -/
theorem newlines_of_mem_errors {source : List UInt8} {d : Diagnostic} (given : d ∈ errors source) :
    newlines d.shown = 0 ∨ ∃ t ∈ tokens source, newlines d.shown = newlines t.lexeme := by
  rcases origin_of_mem_errors given with fault | ⟨t, place, named⟩
  · exact .inl (newlines_of_mem_faults (mem_faults.mpr fault))
  have shown : d.shown = t.location := by
    cases named <;> rfl
  rw [shown, Token.location]
  split
  · exact .inl rfl
  · next other =>
      refine .inr ⟨t, mem_tokens.mpr (place.resolve_right other), ?_⟩
      change newlines ("'" ++ t.lexeme ++ "'") = _
      rw [newlines_append, newlines_append]
      exact Nat.zero_add _

/-! ## (3) Streams -/

/-- The newlines of lines: one for each, and those inside. -/
theorem count_newline_lines (texts : List String) :
    (texts.flatMap lineBytes).count Byte.newline = texts.length + (texts.map newlines).sum := by
  induction texts with
  | nil => rfl
  | cons text texts ih =>
      rw [List.flatMap_cons, List.count_append, ih, lineBytes, List.count_append,
        Utf8.count_newline_encode, List.map_cons, List.sum_cons, List.length_cons,
        List.count_singleton_self]
      omega

/-- **Lines without newlines inside** are what stands between the newlines. -/
theorem splitOn_newline_lines {texts : List String} (inside : ∀ text ∈ texts, newlines text = 0) :
    (texts.flatMap lineBytes).splitOn Byte.newline = texts.map Utf8.encode ++ [[]] := by
  have joined : texts.flatMap lineBytes =
      [Byte.newline].intercalate (texts.map Utf8.encode ++ [[]]) := by
    clear inside
    induction texts with
    | nil => rfl
    | cons text texts ih =>
        rw [List.map_cons, List.cons_append, List.intercalate_cons_of_ne_nil (by simp), ← ih,
          List.flatMap_cons]
        rfl
  rw [joined]
  refine List.splitOn_intercalate _ ?_ (by simp)
  intro line member
  rcases List.mem_append.mp member with shown | last
  · obtain ⟨text, among, rfl⟩ := List.mem_map.mp shown
    rw [← List.count_eq_zero, Utf8.count_newline_encode, inside text among]
  · rw [List.mem_singleton.mp last]
    exact List.not_mem_nil

/-- How many newlines a command writes to a channel without limits. -/
def newlinesOn (command : Command) (source : List UInt8) (channel : Channel) : Nat :=
  ((command.unlimited source).1.sink channel).kept.toList.count Byte.newline

/-- The newlines written to a channel are one for each line there, and those inside the lines. -/
theorem newlinesOn_eq (command : Command) (source : List UInt8) (channel : Channel) :
    command.newlinesOn source channel = (textsOn channel (command.lines source)).length +
      ((textsOn channel (command.lines source)).map newlines).sum := by
  rw [newlinesOn, kept_unlimited, bytesOn_eq_flatMap, count_newline_lines]

/-- Lines without newlines inside are written with a newline each. -/
theorem newlinesOn_of_forall {command : Command} {source : List UInt8} {channel : Channel}
    (inside : ∀ text ∈ textsOn channel (command.lines source), newlines text = 0) :
    command.newlinesOn source channel = (textsOn channel (command.lines source)).length := by
  rw [newlinesOn_eq, List.sum_eq_zero_iff_forall_eq_nat.mpr (List.forall_mem_map.mpr inside),
    Nat.add_zero]

/-- The report of a fault has no newline inside. -/
theorem newlines_of_mem_reports {json : Bool} {source : List UInt8} :
    ∀ text ∈ textsOn .err ((tokenize json).lines source), newlines text = 0 := by
  rw [textsOn_err_tokenize, List.forall_mem_map]
  intro d member
  rw [d.newlines_report, newlines_of_mem_faults member]

/-- **Where no token holds a newline** no line does, but for those of a dump as JSON. -/
theorem newlines_of_mem_textsOn {source : List UInt8}
    (plain : ∀ t ∈ tokens source, newlines t.lexeme = 0) {command : Command}
    (isText : command ∈ [tokenize false, parse]) (channel : Channel) :
    ∀ text ∈ textsOn channel (command.lines source), newlines text = 0 := by
  obtain rfl | rfl : command = tokenize false ∨ command = parse := by simpa using isText
  · cases channel with
    | out =>
        rw [textsOn_out_tokenize, List.forall_mem_map]
        intro t member
        have text := newlines_text_of_mem_tokens member
        rw [plain t member] at text
        exact text
    | err => exact newlines_of_mem_reports
  · cases channel with
    | out =>
        rw [textsOn_out_parse, List.forall_mem_map]
        intro e member
        rw [e.newlines_text, List.sum_eq_zero_iff_forall_eq_nat, List.forall_mem_map]
        intro s inside
        obtain ⟨t, among, literal⟩ := exists_token_of_mem_strings member inside
        rw [(newlines_of_mem_tokens among).2 s literal, plain t among]
    | err =>
        rw [textsOn_err_parse, List.forall_mem_map]
        intro d member
        rw [d.newlines_report]
        rcases newlines_of_mem_errors member with none | ⟨t, among, same⟩
        · exact none
        · rw [same, plain t among]

/-- **Every item has one line**: over the source, the commands write as many newlines as there are
items. -/
structure OneLineEach (source : List UInt8) : Prop where
  /-- The tokens, in a dump as plain text. -/
  tokens : (tokenize false).newlinesOn source .out = (tokens source).length
  /-- The faults, in a dump of either form. -/
  faults : ∀ json, (tokenize json).newlinesOn source .err = (faults source).length
  /-- The expressions. -/
  expressions : parse.newlinesOn source .out = (expressions source).length
  /-- The errors of the parser. -/
  errors : parse.newlinesOn source .err = (errors source).length

/-- **Newlines written over a source**: one for each token, and two for each newline in it; one for
each fault; one for each expression, and one for each newline in its texts; one for each error of
the parser, and one for each newline in what it shows. So every item has one line exactly if no
token of the source holds a newline; and then the lines of a channel are what stands between the
newlines. -/
theorem newlines_written (source : List UInt8) :
    ((tokenize false).newlinesOn source .out =
      (tokens source).length + ((tokens source).map fun t => 2 * newlines t.lexeme).sum) ∧
    (∀ json, (tokenize json).newlinesOn source .err = (faults source).length) ∧
    (parse.newlinesOn source .out = (expressions source).length +
      ((expressions source).map fun e => (e.strings.map newlines).sum).sum) ∧
    (parse.newlinesOn source .err =
      (errors source).length + ((errors source).map fun d => newlines d.shown).sum) ∧
    (OneLineEach source ↔ ∀ t ∈ tokens source, newlines t.lexeme = 0) ∧
    ((∀ t ∈ tokens source, newlines t.lexeme = 0) → ∀ command ∈ [tokenize false, parse],
      ∀ channel, ((command.unlimited source).1.sink channel).kept.toList.splitOn Byte.newline =
        (textsOn channel (command.lines source)).map Utf8.encode ++ [[]]) := by
  have tokenLines : (tokenize false).newlinesOn source .out =
      (tokens source).length + ((tokens source).map fun t => 2 * newlines t.lexeme).sum := by
    rw [newlinesOn_eq, textsOn_out_tokenize, List.length_map, List.map_map]
    congr 2
    exact List.map_congr_left fun t member => newlines_text_of_mem_tokens member
  have faultLines : ∀ json, (tokenize json).newlinesOn source .err = (faults source).length := by
    intro json
    rw [newlinesOn_of_forall newlines_of_mem_reports, textsOn_err_tokenize, List.length_map]
  have expressionLines : parse.newlinesOn source .out = (expressions source).length +
      ((expressions source).map fun e => (e.strings.map newlines).sum).sum := by
    rw [newlinesOn_eq, textsOn_out_parse, List.length_map, List.map_map]
    congr 2
    exact List.map_congr_left fun e _ => e.newlines_text
  have errorLines : parse.newlinesOn source .err =
      (errors source).length + ((errors source).map fun d => newlines d.shown).sum := by
    rw [newlinesOn_eq, textsOn_err_parse, List.length_map, List.map_map]
    congr 2
    exact List.map_congr_left fun d _ => d.newlines_report
  refine ⟨tokenLines, faultLines, expressionLines, errorLines, ⟨?_, ?_⟩, ?_⟩
  · intro each t member
    have none : ((tokens source).map fun t => 2 * newlines t.lexeme).sum = 0 := by
      have count := each.tokens
      omega
    rw [List.sum_eq_zero_iff_forall_eq_nat, List.forall_mem_map] at none
    have twice := none t member
    omega
  · intro plain
    have inside := @newlines_of_mem_textsOn source plain
    refine ⟨?_, faultLines, ?_, ?_⟩
    · rw [newlinesOn_of_forall (inside (by simp) _), textsOn_out_tokenize, List.length_map]
    · rw [newlinesOn_of_forall (inside (by simp) _), textsOn_out_parse, List.length_map]
    · rw [newlinesOn_of_forall (inside (by simp) _), textsOn_err_parse, List.length_map]
  · intro plain command isText channel
    rw [kept_unlimited, bytesOn_eq_flatMap]
    exact splitOn_newline_lines (newlines_of_mem_textsOn plain isText channel)

/-- A text literal over two lines is one token and one expression. The dump of the token has two
newlines more than tokens, and the dump of the expression has one more than expressions. -/
theorem newlinesOn_twoLines :
    let source := Utf8.encode "\"a\nb\""
    (tokenize false).newlinesOn source .out = 4 ∧ (tokens source).length = 2 ∧
      parse.newlinesOn source .out = 2 ∧ (expressions source).length = 1 ∧
      ¬ OneLineEach source := by
  intro source
  have dumped : (tokenize false).newlinesOn source .out = 4 := by decide +kernel
  have held : (tokens source).length = 2 := by decide +kernel
  refine ⟨dumped, held, by decide +kernel, by decide +kernel, fun each => ?_⟩
  have count := each.tokens
  omega

end Command

end LoxSyntax
