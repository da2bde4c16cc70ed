import LoxSyntax.Proofs.Command.Parse
import LoxSyntax.Proofs.Expr.Completeness
import LoxSyntax.Proofs.Expr.Writing
import LoxSyntax.Proofs.Lexical.Requests
import LoxSyntax.Proofs.Performance

/-! # From written expressions to their canonical text
A source that is written from a tree, with blanks between the lexemes, is read back as that tree: a
dump of its expressions is one line, the canonical text of the tree (`Command.dump_of_writes`). The
precedences of the tree must be in order, since nothing else than its own groups is written to keep
its nodes together, and it must not need more levels than there are. -/

namespace LoxSyntax

/-- **A written tree is the only expression** of its source. -/
theorem Expr.Writes.results_eq {e : Expr} {ls : List Lexeme} {text : List UInt8}
    (writes : e.Writes ls) (spaced : Spaced ls text) (shaped : e.isShaped = true)
    (enough : e.need ≤ Parser.maxDepth) :
    (Parser.ofSupply (Cursor.start text)).results ([e].length + 1) = outcomes [e] none ∧
      [e].length ≤ text.length := by
  obtain ⟨ts, last, items, spells, kind⟩ := writes.scan_eq spaced
  -- What the parser has ahead are the tokens of the tree and the end of input.
  have gives := Cursor.gives_start text
  rw [items] at gives
  have holds : (Parser.ofSupply (Cursor.start text)).ahead.Holds (ts.map .token ++ [.token last]) :=
    Lookahead.holds_ofSupply gives
  have ends : Parser.isEnd (List.head? [.token last]) = true := by
    simp [Parser.isEnd, Reading.kindOf, kind]
  have stops : Reading.nextOperator 0 [.token last] = none :=
    Reading.nextOperator_eq_none_of_isEnd ends 0
  obtain ⟨given, -, -, after⟩ := Parser.next_of_spells rfl holds spells shaped stops enough
  rw [← after.given_peek] at ends
  refine ⟨?_, ?_⟩
  · rw [List.length_singleton, Parser.results, given, Parser.results_of_isEnd ends]
    rfl
  · cases text with
    | cons b text => exact Nat.le_add_left 1 text.length
    | nil =>
        -- A source without bytes has no token that could open the tree.
        have nothing : scan [] = [.token (.endOfInput (.after [] []))] := by
          decide +kernel
        obtain ⟨t, more, rfl, -⟩ := spells.opening_head
        rw [nothing] at items
        simp at items

namespace Command

/-- **A written tree is dumped as its canonical text**, on every stage without limits: the text and
a newline are written to the channel of results and nothing to the other one, no action fails, and
the status tells of no error. -/
theorem dump_of_writes {e : Expr} {ls : List Lexeme} {text : List UInt8} {s : Stage}
    (shaped : e.isShaped = true) (enough : e.need ≤ Parser.maxDepth) (writes : e.Writes ls)
    (spaced : Spaced ls text) (unlimited : s.Unlimited) :
    ∃ s', s.perform (parse.transcript text).actions = (s', none) ∧
      s'.out.kept.toList = s.out.kept.toList ++ lineBytes e.text ∧
      s'.err.kept.toList = s.err.kept.toList ∧ (parse.transcript text).status = 0 := by
  obtain ⟨results, bytes⟩ := writes.results_eq spaced shaped enough
  obtain ⟨out, err, status⟩ := written_parse results bytes
  obtain ⟨s', performed, kept⟩ :=
    unlimited.perform (parse.transcript text).actions (parse.transcript text).status
  refine ⟨s', performed, ?_, ?_, status⟩
  · have results := kept .out
    rw [out] at results
    simpa using results
  · have diagnostics := kept .err
    rw [err] at diagnostics
    simpa using diagnostics

/-- The negation of a text with a letter beyond ASCII, divided by a number in parentheses, written
with blanks of all three kinds. -/
theorem dump_of_writes_quotient :
    let quotient : Expr := .binary (.unary .negate (.literal (.string "é"))) .divide
      (.group (.literal (.number (numeralValue "01.5".toList))))
    let ls : List Lexeme := [.fixed .minus, .quoted (Utf8.encode "é"), .fixed .slash,
      .fixed .leftParen, .numeral (Utf8.encode "01.5"), .fixed .rightParen]
    let text := Utf8.encode "-\t\"é\" \n/ (\t01.5 )"
    quotient.isShaped = true ∧ quotient.need ≤ Parser.maxDepth ∧ quotient.Writes ls ∧
      Spaced ls text ∧ (Stage.empty none none true).Unlimited ∧
      ∃ s', (Stage.empty none none true).perform (parse.transcript text).actions = (s', none) ∧
        s'.out.kept.toList = Utf8.encode "(/ (- é) (group 1.5))\n" ∧ s'.err.kept.toList = [] ∧
        (parse.transcript text).status = 0 := by
  intro quotient ls text
  have shaped : quotient.isShaped = true := by decide
  have enough : quotient.need ≤ Parser.maxDepth := by decide
  have numeral : Value.Writes (.number (numeralValue "01.5".toList))
      (.numeral (0x30 :: [0x31, 0x2E, 0x35])) :=
    .number (by decide) (by decide +kernel) (by decide +kernel)
  have writes : quotient.Writes ls :=
    .binary (.unary (.literal (.string (by decide)))) (.group (.literal numeral))
  have split : text = (Lexeme.fixed .minus).bytes ++ ([Byte.tab] ++
      ((Lexeme.quoted (Utf8.encode "é")).bytes ++ ([Byte.space, Byte.newline] ++
      ((Lexeme.fixed .slash).bytes ++ ([Byte.space] ++
      ((Lexeme.fixed .leftParen).bytes ++ ([Byte.tab] ++
      ((Lexeme.numeral (Utf8.encode "01.5")).bytes ++ ([Byte.space] ++
      (Lexeme.fixed .rightParen).bytes))))))))) := by
    decide +kernel
  have spaced : Spaced ls text := by
    rw [split]
    refine .more _ ?_ ?_ (.more _ ?_ ?_ (.more _ ?_ ?_ (.more _ ?_ ?_ (.more _ ?_ ?_ (.one _)))))
    all_goals simp
  have line : lineBytes quotient.text = Utf8.encode "(/ (- é) (group 1.5))\n" := by
    decide +kernel
  obtain ⟨s', performed, out, err, status⟩ :=
    dump_of_writes shaped enough writes spaced Stage.unlimited_empty
  rw [line] at out
  exact ⟨shaped, enough, writes, spaced, Stage.unlimited_empty, s', performed, out, err, status⟩

end Command

end LoxSyntax
