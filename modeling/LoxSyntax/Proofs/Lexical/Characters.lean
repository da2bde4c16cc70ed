import LoxSyntax.Proofs.Lexical.Cut
import LoxSyntax.Proofs.Text.Boundaries

/-! # Items and characters
An item takes up whole characters of its source. A character that starts no token is one item with
all its bytes; a byte is one only where no character starts (`characters_whole`). Where the source
is the encoding of a text there is no such byte: every item starts and stops between two characters
of the text, and the text of a token is the one that it is written with.

1. *Bytes of an item*: what its place covers.
2. *Valid bytes* are cut into valid bytes between items.
3. *Scans*, of any bytes and of a text. -/

namespace LoxSyntax

/-! ## (1) Bytes of an item -/

/-- **A place covers some bytes** of a source: they are those from its start to its stop. -/
structure Span.Covers (span : Span) (source bytes : List UInt8) : Prop where
  /-- It does not stop before it starts. -/
  ordered : span.start ≤ span.stop
  /-- It stops in the source. -/
  inside : span.stop ≤ source.length
  /-- These are the bytes. -/
  extract : source.extract span.start span.stop = bytes

/-- The place of some bytes after others covers them. -/
theorem Span.covers_after (front bytes back : List UInt8) :
    (Span.after front bytes).Covers (front ++ (bytes ++ back)) bytes where
  ordered := Nat.le_add_right _ _
  inside := by
    simp only [Span.after, List.length_append]
    omega
  extract := Span.extract_after front bytes back

/-- **The text of a token is that of its bytes.** -/
theorem Lexes.lexeme_eq {span : Span} {bytes rest : List UInt8} {t : Token}
    (lexes : Lexes span bytes rest (.token t)) : t.lexeme = Utf8.decode bytes := by
  cases lexes with
  | mark listed => exact (Utf8.decode_encode _).symm
  | joined listed => exact (Utf8.decode_encode _).symm
  | alone listed alone => exact (Utf8.decode_encode _).symm
  | slash alone => exact (Utf8.decode_encode Kind.slash.text).symm
  | number digit runs stops => rfl
  | reserved starts runs stops listed text => rw [← text, Utf8.decode_encode]; rfl
  | identifier starts runs stops other => rfl
  | string inside => rfl

/-- **A byte that is no character**: one byte of a source, shown as the replacement character, at
which no encoding of a character starts. -/
structure IsStrayByte (source : List UInt8) (shown : Char) (span : Span) : Prop where
  /-- What is shown. -/
  shown : shown = Utf8.replacement
  /-- It is one byte. -/
  byte : ∃ b, span.Covers source [b]
  /-- No character starts there. -/
  none : ∀ c, ¬ String.utf8EncodeChar c <+: source.drop span.start

/-- What starts no token is a character or a byte that is none. -/
theorem Lexes.unexpectedChar {front bytes back : List UInt8} {span : Span} {c : Char}
    (lexes : Lexes (.after front bytes) bytes back (.fault (.unexpectedChar c span))) :
    span.Covers (front ++ (bytes ++ back)) (String.utf8EncodeChar c) ∨
      IsStrayByte (front ++ (bytes ++ back)) c span := by
  have covers := Span.covers_after front bytes back
  obtain rfl : span = .after front bytes := Option.some.inj lexes.span?_eq
  generalize place : Span.after front bytes = span at lexes covers
  cases lexes with
  | character other => exact .inl covers
  | @byte b _ other broken =>
      refine .inr ⟨rfl, ⟨b, covers⟩, ?_⟩
      rintro c ⟨more, split⟩
      rw [← place, Span.after, List.drop_left] at split
      exact broken c more split.symm

/-! ## (2) Valid bytes -/

/-- A gap of valid bytes is valid. -/
theorem IsGap.isValid {gap rest : List UInt8} (isGap : IsGap rest gap)
    (valid : Utf8.IsValid (gap ++ rest)) : Utf8.IsValid gap := by
  have after : ∀ front {more : List UInt8}, Utf8.IsValid front →
      Utf8.IsValid (front ++ more ++ rest) → (Utf8.IsValid (more ++ rest) → Utf8.IsValid more) →
      Utf8.IsValid (front ++ more) := by
    intro front more first whole ih
    rw [List.append_assoc] at whole
    exact first.append (ih (whole.right first))
  induction isGap with
  | nil => exact Utf8.isValid_nil
  | @blank b gap blank more ih =>
      have small : b.toNat < 0x80 := by
        rcases blank with rfl | rfl | rfl <;> decide
      exact after [b] (Utf8.isValid_singleton small) valid ih
  | @comment text gap line ends more ih =>
      have slash : Utf8.IsValid [Byte.slash] := Utf8.isValid_singleton (by decide)
      have slashes : Utf8.IsValid [Byte.slash, Byte.slash] := slash.append slash
      have whole : Utf8.IsValid ([Byte.slash, Byte.slash] ++ (text ++ (gap ++ rest))) := by
        simpa using valid
      have first : Utf8.IsValid text := by
        refine (whole.right slashes).left_of_head? fun b next => ?_
        rw [ends b next]
        decide
      exact after (Byte.slash :: Byte.slash :: text) (slashes.append first) valid ih

/-- An item of valid bytes is written with valid bytes. -/
theorem Lexes.isValid {span : Span} {bytes rest : List UInt8} {item : Item}
    (lexes : Lexes span bytes rest item) (valid : Utf8.IsValid (bytes ++ rest)) :
    Utf8.IsValid bytes := by
  have quote : Utf8.IsValid [Byte.quote] := Utf8.isValid_singleton (by decide)
  cases lexes with
  | mark listed => exact ⟨_, rfl⟩
  | joined listed => exact ⟨_, rfl⟩
  | alone listed alone => exact ⟨_, rfl⟩
  | slash alone => exact Utf8.isValid_singleton (by decide)
  | number digit runs stops => exact Utf8.isValid_of_ascii (Lexeme.ascii_of_numeral digit runs)
  | reserved starts runs stops listed text =>
      exact Utf8.isValid_of_ascii (Lexeme.ascii_of_word starts runs)
  | identifier starts runs stops other =>
      exact Utf8.isValid_of_ascii (Lexeme.ascii_of_word starts runs)
  | @string content _ inside =>
      have whole : Utf8.IsValid ([Byte.quote] ++ (content ++ Byte.quote :: rest)) := by
        simpa using valid
      have first := (whole.right quote).left (by decide)
      exact quote.append (first.append quote)
  | @unterminated content _ unclosed line ends =>
      have whole : Utf8.IsValid ([Byte.quote] ++ (content ++ rest)) := valid
      refine quote.append ((whole.right quote).left_of_head? fun b next => ?_)
      rw [ends b next]
      decide
  | @character c _ other => exact Utf8.isValid_encodeChar c
  | @byte b _ other broken =>
      -- Valid bytes start with a character.
      obtain ⟨cs, same⟩ := Utf8.isValid_iff.mp valid
      cases cs with
      | nil => cases same
      | cons c cs => exact absurd same (broken c _)

/-- **Valid bytes are cut into valid bytes** between their items. -/
theorem Cut.isValid {before front back : List UInt8} {first second : List Item}
    (cut : Cut before front back first second) (valid : Utf8.IsValid (front ++ back)) :
    Utf8.IsValid front := by
  induction cut with
  | here scans => exact Utf8.isValid_nil
  | gap isGap bare scans => exact isGap.isValid valid
  | @item before gap bytes front back item first second isGap bare lexes more ih =>
      have whole : Utf8.IsValid (gap ++ (bytes ++ (front ++ back))) := by
        simpa using valid
      have inGap := isGap.isValid whole
      have after := whole.right inGap
      have inItem := lexes.isValid after
      exact inGap.append (inItem.append (ih (after.right inItem)))

/-- What comes before an edge of an item of valid bytes is valid. -/
theorem isValid_take_of_isEdge {source : List UInt8} (valid : Utf8.IsValid source) {p : Nat}
    (edge : IsEdge (scan source) p) : p ≤ source.length ∧ Utf8.IsValid (source.take p) := by
  obtain ⟨front, back, first, second, rfl, rfl, -, cut⟩ := (scans_scan source).exists_cut edge
  rw [List.length_nil, Nat.zero_add, List.take_left]
  exact ⟨by simp, cut.isValid valid⟩

/-- **An edge of an item is between two characters** of the text that a source encodes. -/
theorem position_of_isEdge {text : String} {p : Nat} (edge : IsEdge (scan (Utf8.encode text)) p) :
    (⟨p⟩ : String.Pos.Raw).IsValid text := by
  obtain ⟨inside, valid⟩ := isValid_take_of_isEdge ⟨text, rfl⟩ edge
  have position := Utf8.position_of_split (List.take_append_drop p (Utf8.encode text)).symm valid
  rwa [List.length_take_of_le inside] at position

/-! ## (3) Scans -/

/-- Every item has a place, whose start and stop are edges. -/
theorem exists_edges_of_mem {source : List UInt8} {item : Item} (member : item ∈ scan source) :
    ∃ span, item.span? = some span ∧ IsEdge (scan source) span.start ∧
      IsEdge (scan source) span.stop := by
  have placed : ∃ span, item.span? = some span := by
    rcases (scans_scan source).exists_lexes member with ⟨_, rfl⟩ | ⟨_, bytes, back, -, lexes⟩
    · exact ⟨_, rfl⟩
    · exact ⟨_, lexes.span?_eq⟩
  obtain ⟨span, place⟩ := placed
  exact ⟨span, place, ⟨item, member, span, place, .inl rfl⟩, ⟨item, member, span, place, .inr rfl⟩⟩

/-- What starts no token in a source is a character or a byte that is none. -/
theorem covers_of_unexpectedChar {source : List UInt8} {c : Char} {span : Span}
    (member : .fault (.unexpectedChar c span) ∈ scan source) :
    span.Covers source (String.utf8EncodeChar c) ∨ IsStrayByte source c span := by
  rcases (scans_scan source).exists_amid member with last | ⟨front, bytes, back, rfl, -, lexes⟩
  · cases last
  · exact lexes.unexpectedChar

/-- In valid bytes a character starts at every edge of an item but the end. -/
theorem not_isStrayByte_of_isValid {source : List UInt8} (valid : Utf8.IsValid source) {c : Char}
    {span : Span} (edge : IsEdge (scan source) span.start) : ¬ IsStrayByte source c span := by
  rintro ⟨-, ⟨b, covers⟩, none⟩
  obtain ⟨-, front⟩ := isValid_take_of_isEdge valid edge
  rw [← List.take_append_drop span.start source] at valid
  obtain ⟨cs, same⟩ := Utf8.isValid_iff.mp (valid.right front)
  cases cs with
  | nil =>
      have extract := covers.extract
      rw [List.extract_eq_take_drop, same] at extract
      simp at extract
  | cons c' cs => exact none c' ⟨_, same.symm⟩

/-- **In valid bytes the text of a token encodes to the bytes that its place covers.** -/
theorem covers_lexeme_of_isValid {source : List UInt8} (valid : Utf8.IsValid source) {t : Token}
    (member : .token t ∈ scan source) : t.span.Covers source (Utf8.encode t.lexeme) := by
  rcases (scans_scan source).exists_amid member with
    last | ⟨front, bytes, back, whole, -, lexes⟩
  · cases last
    have nothing := Span.covers_after source [] []
    rw [List.append_nil, List.append_nil] at nothing
    exact nothing
  · have place : t.span = .after front bytes := Option.some.inj lexes.span?_eq
    obtain ⟨span, place', start, -⟩ := exists_edges_of_mem member
    obtain rfl : t.span = span := Option.some.inj place'
    obtain ⟨-, before⟩ := isValid_take_of_isEdge valid start
    rw [place, Span.after, whole, List.take_left] at before
    rw [whole] at valid
    rw [lexes.lexeme_eq, (lexes.isValid (valid.right before)).encode_decode, place, whole]
    exact Span.covers_after front bytes back

/-- **Characters are whole.** What starts no token is covered by its place with all the bytes that
encode it, or it is a single byte at which no character starts, shown as the replacement character.
In the encoding of a text no byte is of the second kind, all items start and stop between two
characters, and every token is written with the encoding of its text. -/
theorem characters_whole (source : List UInt8) :
    (∀ c span, .fault (.unexpectedChar c span) ∈ scan source →
      span.Covers source (String.utf8EncodeChar c) ∨ IsStrayByte source c span) ∧
    ∀ text, source = Utf8.encode text →
      (∀ c span, .fault (.unexpectedChar c span) ∈ scan source → ¬ IsStrayByte source c span) ∧
      (∀ item ∈ scan source, ∃ span, item.span? = some span ∧
        (⟨span.start⟩ : String.Pos.Raw).IsValid text ∧
        (⟨span.stop⟩ : String.Pos.Raw).IsValid text) ∧
      ∀ t, .token t ∈ scan source → t.span.Covers source (Utf8.encode t.lexeme) := by
  refine ⟨fun c span => covers_of_unexpectedChar, ?_⟩
  rintro text rfl
  have valid : Utf8.IsValid (Utf8.encode text) := ⟨text, rfl⟩
  refine ⟨?_, ?_, fun t => covers_lexeme_of_isValid valid⟩
  · intro c span member
    obtain ⟨span', place, start, -⟩ := exists_edges_of_mem member
    obtain rfl : span = span' := Option.some.inj place
    exact not_isStrayByte_of_isValid valid start
  · intro item member
    obtain ⟨span, place, start, stop⟩ := exists_edges_of_mem member
    exact ⟨span, place, position_of_isEdge start, position_of_isEdge stop⟩

/-- A letter with an accent, which starts no token, and a string with the sign of the euro. -/
theorem characters_whole_accented :
    let text := "é \"€\""
    let source := Utf8.encode text
    let string : Token := ⟨.string, "\"€\"", some (.string "€"), ⟨3, 8, 1⟩⟩
    .fault (.unexpectedChar 'é' ⟨0, 2, 1⟩) ∈ scan source ∧ .token string ∈ scan source ∧
      (⟨0, 2, 1⟩ : Span).Covers source (String.utf8EncodeChar 'é') ∧
      ¬ IsStrayByte source 'é' ⟨0, 2, 1⟩ ∧
      (⟨3⟩ : String.Pos.Raw).IsValid text ∧ (⟨8⟩ : String.Pos.Raw).IsValid text ∧
      (⟨3, 8, 1⟩ : Span).Covers source (Utf8.encode "\"€\"") := by
  intro text source string
  have items : scan source = [.fault (.unexpectedChar 'é' ⟨0, 2, 1⟩), .token string,
      .token (.endOfInput ⟨8, 8, 1⟩)] := by
    decide +kernel
  have stray : .fault (.unexpectedChar 'é' ⟨0, 2, 1⟩) ∈ scan source := by
    rw [items]
    exact List.mem_cons_self
  have token : .token string ∈ scan source := by
    rw [items]
    exact List.mem_cons_of_mem _ List.mem_cons_self
  obtain ⟨shown, encoded⟩ := characters_whole source
  obtain ⟨none, positions, covers⟩ := encoded text rfl
  obtain ⟨span, place, start, stop⟩ := positions _ token
  cases place
  exact ⟨stray, token, (shown _ _ stray).resolve_right (none _ _ stray), none _ _ stray, start,
    stop, covers string token⟩

/-- Bytes that start no character are shown one by one, and the first byte of a sequence that is cut
off is one of them. -/
example : scan [0xFF, 0x2B, 0xC3] = [.fault (.unexpectedChar Utf8.replacement ⟨0, 1, 1⟩),
    .token (.fixed .plus ⟨1, 2, 1⟩), .fault (.unexpectedChar Utf8.replacement ⟨2, 3, 1⟩),
    .token (.endOfInput ⟨3, 3, 1⟩)] := by
  decide +kernel

end LoxSyntax
