import LoxSyntax.Proofs.Lexical.Characters
import LoxSyntax.Proofs.Lexical.Joined

/-! # Quotes
A quote outside comments opens a string, and the next quote, wherever it stands, closes it. The text
of the string is then its value in quotes, whatever bytes stand between them
(`string_lexeme_quoted`). A quote that no later one closes takes up the rest of its line. It is the
last quote of its source, so there is at most one such quote, and no string after it
(`unclosed_last`).

1. *Strings*.
2. *The last quote* of a source, and what comes after it. -/

namespace LoxSyntax

/-! ## (1) Strings -/

/-- A string token, as it is written. -/
theorem Lexes.eq_string {span : Span} {bytes rest : List UInt8} {t : Token}
    (lexes : Lexes span bytes rest (.token t)) (string : t.kind = .string) :
    ∃ content, bytes = Byte.quote :: (content ++ [Byte.quote]) ∧ Byte.quote ∉ content ∧
      t.literal = some (.string (Utf8.decode content)) := by
  have marks : ∀ k ∈ Kind.marks, k ≠ .string := by decide
  have doublables : ∀ pair ∈ Kind.doublables, pair.1 ≠ .string ∧ pair.2 ≠ .string := by decide
  have words : ∀ k ∈ Kind.words, k ≠ .string := by decide
  cases lexes with
  | mark listed => exact absurd string (marks _ listed)
  | joined listed => exact absurd string (doublables _ listed).2
  | alone listed alone => exact absurd string (doublables _ listed).1
  | reserved starts runs stops listed text => exact absurd string (words _ listed)
  | slash alone => cases string
  | number digit runs stops => cases string
  | identifier starts runs stops other => cases string
  | string inside => exact ⟨_, rfl, inside, rfl⟩

/-- **The text of a string is its value in quotes.** A string token covers a quote, some bytes
without quotes, and a quote. Its value is what the bytes between the quotes are read as, and its
text, which is what all of them are read as, is that value in quotes: no sequence is begun inside
and finished by the quote. -/
theorem string_lexeme_quoted {source : List UInt8} {t : Token} (member : .token t ∈ scan source)
    (string : t.kind = .string) :
    ∃ content value, t.span.Covers source (Byte.quote :: (content ++ [Byte.quote])) ∧
      Byte.quote ∉ content ∧ t.literal = some (.string value) ∧
      Utf8.Reads content value.toList ∧
      Utf8.Reads (Byte.quote :: (content ++ [Byte.quote])) t.lexeme.toList ∧
      '"' ∉ value.toList ∧ t.lexeme = "\"" ++ value ++ "\"" := by
  rcases (scans_scan source).exists_amid member with
    last | ⟨front, bytes, back, whole, -, lexes⟩
  · cases last
    cases string
  · have place : t.span = .after front bytes := Option.some.inj lexes.span?_eq
    have covers := Span.covers_after front bytes back
    have lexeme := lexes.lexeme_eq
    rw [← whole, ← place] at covers
    obtain ⟨content, rfl, inside, literal⟩ := lexes.eq_string string
    refine ⟨content, Utf8.decode content, covers, inside, literal, Utf8.decode_eq_iff.mp rfl,
      Utf8.decode_eq_iff.mp lexeme.symm, Utf8.quote_not_mem_decode inside, ?_⟩
    rw [lexeme, Utf8.decode_quoted]

/-- A string whose content is cut off in the middle of a character. -/
theorem string_lexeme_quoted_broken :
    let source : List UInt8 := [Byte.quote, 0xE2, 0x82, Byte.quote]
    let t : Token := ⟨.string, "\"\ufffd\"", some (.string "\ufffd"), ⟨0, 4, 1⟩⟩
    .token t ∈ scan source ∧ t.kind = .string ∧
      ∃ content value, t.span.Covers source (Byte.quote :: (content ++ [Byte.quote])) ∧
        Byte.quote ∉ content ∧ t.literal = some (.string value) ∧
        Utf8.Reads content value.toList ∧
        Utf8.Reads (Byte.quote :: (content ++ [Byte.quote])) t.lexeme.toList ∧
        '"' ∉ value.toList ∧ t.lexeme = "\"" ++ value ++ "\"" := by
  intro source t
  have items : scan source = [.token t, .token (.endOfInput ⟨4, 4, 1⟩)] := by
    decide +kernel
  have member : .token t ∈ scan source := by
    rw [items]
    exact List.mem_cons_self
  exact ⟨member, rfl, string_lexeme_quoted member rfl⟩

/-! ## (2) The last quote -/

/-- Where no quote is left, no item is a string or a quote that is not closed. -/
theorem Scans.of_quote_not_mem {before rest : List UInt8} {items : List Item}
    (scans : Scans before rest items) (none : Byte.quote ∉ rest) :
    ∀ item ∈ items, item.isUnclosed = false ∧ ∀ t, item = .token t → t.kind ≠ .string := by
  intro item member
  rcases scans.exists_amid member with rfl | ⟨front, bytes, back, rfl, -, lexes⟩
  · refine ⟨rfl, ?_⟩
    rintro t same string
    cases same
    cases string
  · have outside : ∀ more, bytes ≠ Byte.quote :: more := by
      rintro more rfl
      simp at none
    refine ⟨Bool.eq_false_iff.mpr fun unclosed => ?_, ?_⟩
    · obtain ⟨content, written, -⟩ := lexes.eq_unterminated unclosed
      exact outside _ written
    · rintro t rfl string
      obtain ⟨content, written, -⟩ := lexes.eq_string string
      exact outside _ written

/-- **At most one quote is not closed**: after one there is no other. -/
theorem Scans.countP_isUnclosed_le {before rest : List UInt8} {items : List Item}
    (scans : Scans before rest items) : items.countP Item.isUnclosed ≤ 1 := by
  induction scans with
  | ended isGap => exact Nat.zero_le 1
  | @item before gap bytes rest item items isGap bare lexes more ih =>
      cases unclosed : item.isUnclosed with
      | false => rwa [List.countP_cons_of_neg (by simp [unclosed])]
      | true =>
          obtain ⟨content, -, none, -⟩ := lexes.eq_unterminated unclosed
          have quiet := more.of_quote_not_mem fun inside => none (List.mem_append_right _ inside)
          have zero : items.countP Item.isUnclosed = 0 :=
            List.countP_eq_zero.mpr fun item member => by simp [(quiet item member).1]
          rw [List.countP_cons_of_pos unclosed, zero]

/-- **A quote that is not closed**: the last one of a source, with the rest of its line. -/
structure IsUnclosedQuote (source : List UInt8) (span : Span) : Prop where
  /-- It starts with a quote. -/
  quote : source[span.start]? = some Byte.quote
  /-- No quote comes after it. -/
  last : Byte.quote ∉ source.drop (span.start + 1)
  /-- It is a part of the source. -/
  inside : span.start < span.stop ∧ span.stop ≤ source.length
  /-- It is on one line. -/
  line : Byte.newline ∉ source.extract span.start span.stop
  /-- It stops before a newline, or at the end of the source. -/
  ends : ∀ b ∈ (source.drop span.stop).head?, b = Byte.newline

/-- A quote and the bytes after it on its line, where no later quote is. -/
theorem isUnclosedQuote_after {front content back : List UInt8}
    (none : Byte.quote ∉ content ++ back) (line : Byte.newline ∉ content)
    (ends : ∀ b ∈ back.head?, b = Byte.newline) :
    IsUnclosedQuote (front ++ (Byte.quote :: content ++ back))
      (.after front (Byte.quote :: content)) where
  quote := by simp [Span.after]
  last := by
    have split : front ++ (Byte.quote :: content ++ back) =
        (front ++ [Byte.quote]) ++ (content ++ back) := by
      simp
    have start : (Span.after front (Byte.quote :: content)).start + 1 =
        (front ++ [Byte.quote]).length := by
      simp [Span.after]
    rwa [split, start, List.drop_left]
  inside := by
    simp only [Span.after, List.length_append, List.length_cons]
    omega
  line := by
    rw [Span.extract_after]
    exact List.not_mem_cons_of_ne_of_not_mem (by decide) line
  ends := by
    rwa [Span.stop_after, ← List.append_assoc, List.drop_left]

/-- **The items of the next line**: a newline in front of some bytes moves their items to the line
after it. -/
theorem Scans.eq_shift_newline {before following : List UInt8} {items : List Item}
    (scans : Scans before (Byte.newline :: following) items) :
    items = (scan following).map
      (.mapSpan (.shift (before.length + 1) (before.count Byte.newline + 1))) := by
  obtain ⟨items', scans'⟩ := exists_scans (before ++ [Byte.newline]) following
  have layout : IsLayout [Byte.newline] := .blank (.inr (.inr rfl)) .nil
  rw [scans.unique (scans'.append_layout layout), scans'.eq_shift, List.length_append,
    List.count_append]
  rfl

/-- **What comes after a line**: the end of input on that line, or the items of the next one. -/
theorem Scans.after_line {front line rest : List UInt8} {items : List Item}
    (scans : Scans (front ++ line) rest items) (single : Byte.newline ∉ line) :
    (rest = [] → items = [.token (.endOfInput
      ⟨(front ++ line).length, (front ++ line).length, (Span.after front line).line⟩)]) ∧
    ∀ following, rest = Byte.newline :: following → items = (scan following).map
      (.mapSpan (.shift ((Span.after front line).stop + 1) (Span.after front line).line)) := by
  have newlines : (front ++ line).count Byte.newline = front.count Byte.newline := by
    rw [List.count_append, List.count_eq_zero.mpr single, Nat.add_zero]
  constructor
  · rintro rfl
    rw [scans.unique (.ended .nil), List.append_nil]
    simp only [Span.after, newlines, List.length_nil, Nat.add_zero]
  · rintro following rfl
    rw [scans.eq_shift_newline, newlines, Span.stop_after]
    rfl

/-- **Only the last quote of a source can be unclosed.** A scan has at most one fault of a quote
that is not closed. It starts at the last quote of the source, and stops before the first newline
after it or at the end of the source. No string comes after it, and the items after it are those of
the following lines, in their places; if there are none, only the end of input is left. -/
theorem unclosed_last (source : List UInt8) :
    (scan source).countP Item.isUnclosed ≤ 1 ∧
    ∀ first span later, scan source = first ++ .fault (.unterminatedString span) :: later →
      IsUnclosedQuote source span ∧ (∀ t, .token t ∈ later → t.kind ≠ .string) ∧
      (source.drop span.stop = [] →
        later = [.token (.endOfInput ⟨source.length, source.length, span.line⟩)]) ∧
      ∀ following, source.drop span.stop = Byte.newline :: following →
        later = (scan following).map (.mapSpan (.shift (span.stop + 1) span.line)) := by
  refine ⟨(scans_scan source).countP_isUnclosed_le, ?_⟩
  intro first span later split
  rcases (scans_scan source).exists_split split with
    ⟨last, -⟩ | ⟨front, bytes, back, rfl, -, lexes, more⟩
  · cases last
  · obtain rfl : span = .after front bytes := Option.some.inj lexes.span?_eq
    obtain ⟨content, rfl, none, line, ends, -⟩ := lexes.eq_unterminated rfl
    have single : Byte.newline ∉ Byte.quote :: content :=
      List.not_mem_cons_of_ne_of_not_mem (by decide) line
    have left : (front ++ (Byte.quote :: content ++ back)).drop
        (Span.after front (Byte.quote :: content)).stop = back := by
      rw [Span.stop_after, ← List.append_assoc, List.drop_left]
    rw [List.nil_append] at more
    obtain ⟨atEnd, following⟩ := more.after_line single
    rw [left]
    refine ⟨isUnclosedQuote_after none line ends, ?_, ?_, following⟩
    · intro t member
      have quiet := more.of_quote_not_mem fun inside => none (List.mem_append_right _ inside)
      exact (quiet _ member).2 t rfl
    · rintro rfl
      rw [List.append_nil]
      exact atEnd rfl

/-- Three quotes: the first two are a string over two lines, and the third is not closed. -/
theorem unclosed_last_third :
    let source : List UInt8 := [Byte.quote, 0x61, Byte.newline, Byte.quote, Byte.quote, 0x62,
      Byte.newline, 0x2B]
    let string : Token := ⟨.string, "\"a\n\"", some (.string "a\n"), ⟨0, 4, 1⟩⟩
    let later : List Item := [.token (.fixed .plus ⟨7, 8, 3⟩), .token (.endOfInput ⟨8, 8, 3⟩)]
    scan source = [.token string] ++ .fault (.unterminatedString ⟨4, 6, 2⟩) :: later ∧
      (scan source).countP Item.isUnclosed ≤ 1 ∧ IsUnclosedQuote source ⟨4, 6, 2⟩ ∧
      (∀ t, .token t ∈ later → t.kind ≠ .string) ∧
      later = (scan [0x2B]).map (.mapSpan (.shift 7 2)) := by
  intro source string later
  have items : scan source =
      [.token string] ++ .fault (.unterminatedString ⟨4, 6, 2⟩) :: later := by
    decide +kernel
  obtain ⟨once, all⟩ := unclosed_last source
  obtain ⟨unclosed, others, -, following⟩ := all _ _ _ items
  exact ⟨items, once, unclosed, others, following [0x2B] rfl⟩

end LoxSyntax
