import LoxSyntax.Proofs.Lexical.Spaced
import LoxSyntax.Proofs.Text.Decoding

/-! # Scanning the texts of tokens again
The text of a token is scanned to the token again, wherever it stands before a blank. So the texts
of all tokens of a source, put one after the other with a space between them, have the same tokens
in other places (`contents_intercalate_lexemes`). The text of a string is decoded with its quotes,
and when it is scanned again what stands between them is the text decoded without them.

1. *Tokens as lexemes* that blanks end.
2. *Rows of tokens*, token by token. -/

namespace LoxSyntax

/-! ## (1) Tokens as lexemes -/

/-- **A word that is not reserved is separable.** -/
theorem Lexeme.separable_word {b : UInt8} {run : List UInt8} (starts : Byte.isWordStart b = true)
    (runs : ∀ c ∈ run, Byte.isWordPart c = true)
    (other : ∀ k ∈ Kind.words, Utf8.encode k.text ≠ b :: run) : (word (b :: run)).Separable :=
  separable_of_token (fun _ => ⟨_, rfl⟩) fun _ _ blank =>
    .identifier starts runs (blank.stops rfl rfl rfl) other

/-- **The text of a token is a lexeme** that blanks end, and that lexeme is the token, apart from
its place. -/
structure Token.WrittenBy (t : Token) (l : Lexeme) : Prop where
  /-- Blanks end the lexeme. -/
  separable : l.Separable
  /-- Its bytes are those of the text. -/
  bytes : l.bytes = Utf8.encode t.lexeme
  /-- It is the token. -/
  item : l.item .origin = (Item.token t).unplaced

/-- A fixed text is a lexeme. -/
theorem writtenBy_fixed {k : Kind} (span : Span) (fixed : k.text?.isSome = true)
    (written : k ≠ .endOfInput) : (Token.fixed k span).WrittenBy (.fixed k) :=
  ⟨Lexeme.separable_fixed fixed written, rfl, rfl⟩

/-- **Every token but the end of input is written by a lexeme.** -/
theorem Lexes.exists_writtenBy {span : Span} {bytes rest : List UInt8} {t : Token}
    (lexes : Lexes span bytes rest (.token t)) : ∃ l, t.WrittenBy l := by
  -- A fixed text is that of a mark, an operator, the slash or a reserved word.
  have fixed : ∀ k ∈ Kind.marks ++ Kind.doublables.map (·.1) ++ Kind.doublables.map (·.2) ++
      .slash :: Kind.words, k.text?.isSome = true ∧ k ≠ .endOfInput := by
    decide
  have written : ∀ k ∈ Kind.marks ++ Kind.doublables.map (·.1) ++ Kind.doublables.map (·.2) ++
      .slash :: Kind.words, ∃ l, (Token.fixed k span).WrittenBy l := fun k listed =>
    ⟨_, writtenBy_fixed span (fixed k listed).1 (fixed k listed).2⟩
  simp only [List.mem_append, List.mem_cons] at written
  cases lexes with
  | @mark k _ listed => exact written k (.inl (.inl (.inl listed)))
  | @joined single double _ listed =>
      exact written double (.inl (.inr (List.mem_map_of_mem listed)))
  | @alone single double _ listed alone =>
      exact written single (.inl (.inl (.inr (List.mem_map_of_mem listed))))
  | slash alone => exact written .slash (.inr (.inl rfl))
  | reserved starts runs stops listed text => exact written _ (.inr (.inr listed))
  | @number b run _ digit runs stops =>
      have ascii := Lexeme.ascii_of_numeral digit runs
      exact ⟨.numeral (b :: run), Lexeme.separable_numeral digit runs,
        (Utf8.encode_decode_of_ascii ascii).symm, rfl⟩
  | @identifier b run _ starts runs stops other =>
      have ascii := Lexeme.ascii_of_word starts runs
      exact ⟨.word (b :: run), Lexeme.separable_word starts runs other,
        (Utf8.encode_decode_of_ascii ascii).symm, rfl⟩
  | @string content _ inside =>
      -- What stands between the quotes the second time is the text that was decoded the first.
      have unquoted := Utf8.quote_not_mem_encode (Utf8.quote_not_mem_decode inside)
      have bytes : (Lexeme.quoted (Utf8.encode (Utf8.decode content))).bytes =
          Utf8.encode (Utf8.decode (Byte.quote :: (content ++ [Byte.quote]))) := by
        rw [Utf8.decode_quoted, Utf8.encode_append, Utf8.encode_append]
        rfl
      refine ⟨.quoted (Utf8.encode (Utf8.decode content)), Lexeme.separable_quoted unquoted, bytes,
        ?_⟩
      rw [Lexeme.item, bytes, Utf8.decode_encode, Utf8.decode_encode]
      rfl

/-! ## (2) Rows of tokens -/

/-- The contents of texts with spaces between them that begin with that of a token. -/
theorem Token.WrittenBy.contents_intercalate {t : Token} {l : Lexeme} (written : t.WrittenBy l)
    (texts : List String) :
    contents (Utf8.encode (" ".intercalate (t.lexeme :: texts))) =
      (Item.token t).unplaced :: contents (Utf8.encode (" ".intercalate texts)) := by
  have space : StartsBlank [] ∧ ∀ rest, StartsBlank (Byte.space :: rest) := by
    constructor
    · intro b first
      cases first
    · intro rest b first
      cases first
      exact .inl rfl
  rw [← written.item]
  cases texts with
  | nil =>
      have alone := written.separable.contents_append space.1
      rw [List.append_nil, written.bytes] at alone
      rw [String.intercalate_singleton]
      exact alone
  | cons text texts =>
      have first := written.separable.contents_append
        (space.2 (Utf8.encode (" ".intercalate (text :: texts))))
      have layout := contents_append_of_isLayout (.blank (.inl rfl) .nil)
        (Utf8.encode (" ".intercalate (text :: texts)))
      rw [written.bytes] at first
      rw [String.intercalate_cons_cons, Utf8.encode_append, Utf8.encode_append, List.append_assoc]
      exact first.trans (congrArg _ layout)

/-- The texts of the tokens of some bytes, with spaces between them, have the same contents, whether
the empty text of the end of input is put after them or not. -/
theorem Scans.contents_intercalate {before rest : List UInt8} {items : List Item}
    (scans : Scans before rest items) {ts : List Token} (tokens : items = ts.map .token) :
    contents (Utf8.encode (" ".intercalate (ts.map (·.lexeme)))) = items.map Item.unplaced ∧
      contents (Utf8.encode (" ".intercalate (ts.dropLast.map (·.lexeme)))) =
        items.map Item.unplaced := by
  induction scans generalizing ts with
  | ended isGap =>
      obtain ⟨t, none, rfl, same, others⟩ := List.map_eq_cons_iff.mp tokens.symm
      cases List.map_eq_nil_iff.mp others
      cases same
      exact ⟨contents_of_isGap .nil, contents_of_isGap .nil⟩
  | item isGap bare lexes more ih =>
      obtain ⟨t, ts, rfl, rfl, others⟩ := List.map_eq_cons_iff.mp tokens.symm
      obtain ⟨l, written⟩ := lexes.exists_writtenBy
      obtain ⟨all, most⟩ := ih others.symm
      -- The end of input is still to come, so the token is not the last one.
      have later : ts ≠ [] := by
        rintro rfl
        cases others
        cases more
      rw [List.dropLast_cons_of_ne_nil later]
      simp only [List.map_cons]
      rw [written.contents_intercalate, written.contents_intercalate, all, most]
      exact ⟨rfl, rfl⟩

/-- **Scanning the texts of tokens again gives the same tokens.** Where the scan of a source has no
fault, the texts of its tokens, one after the other with a space between any two, have a scan with
the same kinds, texts and values, whether the empty text of the end of input is put after the others
or not. -/
theorem contents_intercalate_lexemes {source : List UInt8} {ts : List Token}
    (tokens : scan source = ts.map .token) :
    contents (Utf8.encode (" ".intercalate (ts.map (·.lexeme)))) = contents source ∧
      contents (Utf8.encode (" ".intercalate (ts.dropLast.map (·.lexeme)))) = contents source :=
  (scans_scan source).contents_intercalate tokens

/-- The source `"` `0xFF` `"` `1..2`: the byte that is no character is scanned again as the
replacement character. -/
theorem contents_intercalate_lexemes_replaced :
    let source : List UInt8 := [Byte.quote, 0xFF, Byte.quote, 0x31, Byte.dot, Byte.dot, 0x32]
    ∃ ts : List Token, scan source = ts.map .token ∧
      " ".intercalate (ts.map (·.lexeme)) = "\"\ufffd\" 1..2 " ∧
      contents (Utf8.encode (" ".intercalate (ts.map (·.lexeme)))) = contents source := by
  intro source
  let ts : List Token := [⟨.string, "\"\ufffd\"", some (.string "\ufffd"), ⟨0, 3, 1⟩⟩,
    ⟨.number, "1..2", some (.number (numeralValue "1..2".toList)), ⟨3, 7, 1⟩⟩,
    .endOfInput ⟨7, 7, 1⟩]
  have tokens : scan source = ts.map .token := by
    decide +kernel
  exact ⟨ts, tokens, by decide, (contents_intercalate_lexemes tokens).1⟩

end LoxSyntax
