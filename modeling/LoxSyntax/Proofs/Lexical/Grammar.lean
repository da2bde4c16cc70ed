import LoxSyntax.Lexical.Lossless
import LoxSyntax.Proofs.Lexical.Gap

/-! # The grammar of items
Which item comes next in a source is told here without reading it: `Lexes` lists, for each kind of
item, the bytes it is written with and what may follow them, so that each item is as long as it can
be.

1. *Fixed texts*: the marks and the operators that an equals sign may follow.
2. *Items*: the relation, and the bytes that start no token.
3. *Reading*: `lexes_iff` says that the longest lexeme of bare bytes is the only item of the grammar
that they start with. -/

namespace LoxSyntax

/-! ## (1) Fixed texts -/

namespace Kind

/-- The marks, tokens whatever follows them. -/
def marks : List Kind := [
  .leftParen, .rightParen, .leftBrace, .rightBrace, .comma, .dot, .minus, .plus, .semicolon, .star]

/-- The operators of one character, each with the one that an equals sign makes of it. -/
def doublables : List (Kind × Kind) := [
  (.equal, .equalEqual), (.bang, .bangEqual), (.less, .lessEqual), (.greater, .greaterEqual)]

/-- A byte is told to be a mark exactly if it writes one. -/
theorem mark?_eq_some_iff {b : UInt8} {k : Kind} :
    mark? b = some k ↔ k ∈ marks ∧ Utf8.encode k.text = [b] := by
  constructor
  · intro told
    have listed :=
      forall_byte (p := fun b => (mark? b).all (marks.contains ·)) (by decide +kernel) b
    rw [told, Option.all_some, List.contains_iff_mem] at listed
    exact ⟨listed, encode_text_of_mark? told⟩
  · rintro ⟨mark, text⟩
    have told : ∀ k ∈ marks, (Utf8.encode k.text).head?.bind mark? = some k := by decide +kernel
    have found := told k mark
    rw [text] at found
    exact found

/-- A byte is told to be a doublable operator exactly if it writes one. -/
theorem doublable?_eq_some_iff {b : UInt8} {pair : Kind × Kind} :
    doublable? b = some pair ↔ pair ∈ doublables ∧ Utf8.encode pair.1.text = [b] := by
  constructor
  · intro told
    have listed := forall_byte (p := fun b => (doublable? b).all (doublables.contains ·))
      (by decide +kernel) b
    rw [told, Option.all_some, List.contains_iff_mem] at listed
    exact ⟨listed, (encode_text_of_doublable? told).1⟩
  · rintro ⟨listed, text⟩
    have told : ∀ pair ∈ doublables,
        (Utf8.encode pair.1.text).head?.bind doublable? = some pair := by
      decide +kernel
    have found := told pair listed
    rw [text] at found
    exact found

end Kind

/-! ## (2) Items -/

/-- **A byte that starts a token.** -/
inductive Byte.Starts (b : UInt8) : Prop where
  /-- A mark. -/
  | mark {k : Kind} (listed : k ∈ Kind.marks) (text : Utf8.encode k.text = [b])
  /-- An operator that an equals sign may follow. -/
  | doublable {pair : Kind × Kind} (listed : pair ∈ Kind.doublables)
    (text : Utf8.encode pair.1.text = [b])
  /-- A slash. -/
  | slash (slash : b = Byte.slash)
  /-- A digit. -/
  | digit (digit : Byte.isDigit b = true)
  /-- A letter or a low line. -/
  | word (word : Byte.isWordStart b = true)
  /-- A quote. -/
  | quote (quote : b = Byte.quote)

/-- **The grammar of items**: the bytes that an item is written with, the bytes that may follow
them, and the item at a place. -/
inductive Lexes (span : Span) : List UInt8 → List UInt8 → Item → Prop where
  /-- A mark, whatever follows it. -/
  | mark {k : Kind} {rest : List UInt8} (listed : k ∈ Kind.marks) :
    Lexes span (Utf8.encode k.text) rest (.token (.fixed k span))
  /-- An operator joined with the equals sign after it. -/
  | joined {single double : Kind} {rest : List UInt8}
    (listed : (single, double) ∈ Kind.doublables) :
    Lexes span (Utf8.encode double.text) rest (.token (.fixed double span))
  /-- The operator alone, where no equals sign follows it. -/
  | alone {single double : Kind} {rest : List UInt8}
    (listed : (single, double) ∈ Kind.doublables) (alone : rest.head? ≠ some Byte.equals) :
    Lexes span (Utf8.encode single.text) rest (.token (.fixed single span))
  /-- A slash, where no other one follows it. -/
  | slash {rest : List UInt8} (alone : rest.head? ≠ some Byte.slash) :
    Lexes span [Byte.slash] rest (.token (.fixed .slash span))
  /-- A digit and the longest run of digits and dots after it. -/
  | number {b : UInt8} {run rest : List UInt8} (digit : Byte.isDigit b = true)
    (runs : ∀ c ∈ run, Byte.isNumeralPart c = true) (stops : Stops Byte.isNumeralPart rest) :
    Lexes span (b :: run) rest (.token ⟨.number, Utf8.decode (b :: run),
      some (.number (numeralValue (Utf8.decode (b :: run)).toList)), span⟩)
  /-- A letter or low line and the longest run of letters, digits and low lines after it, which are
  together a reserved word. -/
  | reserved {b : UInt8} {run rest : List UInt8} {k : Kind} (starts : Byte.isWordStart b = true)
    (runs : ∀ c ∈ run, Byte.isWordPart c = true) (stops : Stops Byte.isWordPart rest)
    (listed : k ∈ Kind.words) (text : Utf8.encode k.text = b :: run) :
    Lexes span (b :: run) rest (.token (.fixed k span))
  /-- The same, where they are no reserved word. -/
  | identifier {b : UInt8} {run rest : List UInt8} (starts : Byte.isWordStart b = true)
    (runs : ∀ c ∈ run, Byte.isWordPart c = true) (stops : Stops Byte.isWordPart rest)
    (other : ∀ k ∈ Kind.words, Utf8.encode k.text ≠ b :: run) :
    Lexes span (b :: run) rest (.token ⟨.identifier, Utf8.decode (b :: run),
      some (.string (Utf8.decode (b :: run))), span⟩)
  /-- A quote, the bytes up to the next quote, and that quote. -/
  | string {content rest : List UInt8} (inside : Byte.quote ∉ content) :
    Lexes span (Byte.quote :: (content ++ [Byte.quote])) rest (.token ⟨.string,
      Utf8.decode (Byte.quote :: (content ++ [Byte.quote])), some (.string (Utf8.decode content)),
      span⟩)
  /-- A quote that no later one closes, and the bytes up to the end of its line. -/
  | unterminated {content rest : List UInt8} (unclosed : Byte.quote ∉ content ++ rest)
    (line : Byte.newline ∉ content) (ends : ∀ b ∈ rest.head?, b = Byte.newline) :
    Lexes span (Byte.quote :: content) rest (.fault (.unterminatedString span))
  /-- A character whose first byte starts no token. -/
  | character {c : Char} {rest : List UInt8}
    (other : ∀ b ∈ (String.utf8EncodeChar c).head?, ¬ Byte.Starts b) :
    Lexes span (String.utf8EncodeChar c) rest (.fault (.unexpectedChar c span))
  /-- A byte that starts no token and no character. -/
  | byte {b : UInt8} {rest : List UInt8} (other : ¬ Byte.Starts b)
    (broken : ∀ c more, b :: rest ≠ String.utf8EncodeChar c ++ more) :
    Lexes span [b] rest (.fault (.unexpectedChar Utf8.replacement span))

/-! ## (3) Reading -/

/-- Which bytes start a token. -/
theorem Byte.starts_iff {b : UInt8} :
    Byte.Starts b ↔ b = Byte.quote ∨ Byte.isDigit b = true ∨ Byte.isWordStart b = true ∨
      b = Byte.slash ∨ (∃ k, Kind.mark? b = some k) ∨ ∃ pair, Kind.doublable? b = some pair := by
  constructor
  · intro starts
    cases starts with
    | mark listed text =>
        exact .inr (.inr (.inr (.inr (.inl ⟨_, Kind.mark?_eq_some_iff.mpr ⟨listed, text⟩⟩))))
    | doublable listed text =>
        exact .inr (.inr (.inr (.inr (.inr ⟨_, Kind.doublable?_eq_some_iff.mpr ⟨listed, text⟩⟩))))
    | slash slash => exact .inr (.inr (.inr (.inl slash)))
    | digit digit => exact .inr (.inl digit)
    | word word => exact .inr (.inr (.inl word))
    | quote quote => exact .inl quote
  · rintro (quote | digit | word | slash | ⟨k, told⟩ | ⟨pair, told⟩)
    · exact .quote quote
    · exact .digit digit
    · exact .word word
    · exact .slash slash
    · obtain ⟨listed, text⟩ := Kind.mark?_eq_some_iff.mp told
      exact .mark listed text
    · obtain ⟨listed, text⟩ := Kind.doublable?_eq_some_iff.mp told
      exact .doublable listed text

namespace Kind

/-- The reserved word that bytes of ASCII write, if they write one. -/
theorem word?_decode_eq_some_iff {text : List UInt8} (ascii : ∀ b ∈ text, b.toNat < 0x80)
    {k : Kind} : word? (Utf8.decode text) = some k ↔ k ∈ words ∧ Utf8.encode k.text = text := by
  rw [word?_eq_some_iff]
  constructor
  · rintro ⟨listed, same⟩
    exact ⟨listed, by rw [same, Utf8.encode_decode_of_ascii ascii]⟩
  · rintro ⟨listed, rfl⟩
    exact ⟨listed, (Utf8.decode_encode _).symm⟩

end Kind

namespace Lexeme

/-- The bytes of a word are bytes of ASCII. -/
theorem ascii_of_word {b : UInt8} {run : List UInt8} (starts : Byte.isWordStart b = true)
    (runs : ∀ c ∈ run, Byte.isWordPart c = true) : ∀ c ∈ b :: run, c.toNat < 0x80 := by
  intro c member
  rcases List.mem_cons.mp member with rfl | inside
  · exact Byte.lt_of_isWordPart (Byte.isWordPart_of_isWordStart starts)
  · exact Byte.lt_of_isWordPart (runs c inside)

/-- The bytes of a numeral are bytes of ASCII. -/
theorem ascii_of_numeral {b : UInt8} {run : List UInt8} (digit : Byte.isDigit b = true)
    (runs : ∀ c ∈ run, Byte.isNumeralPart c = true) : ∀ c ∈ b :: run, c.toNat < 0x80 := by
  have small : ∀ c, Byte.isNumeralPart c = true → c.toNat < 0x80 := by
    intro c part
    rcases Bool.or_eq_true_iff.mp part with digit | dot
    · exact Byte.lt_of_isWordPart (by simp [Byte.isWordPart, digit])
    · rw [beq_iff_eq.mp dot]
      decide
  exact List.forall_mem_cons.mpr
    ⟨small b (by simp [Byte.isNumeralPart, digit]), fun c inside => small c (runs c inside)⟩

/-- **A lexeme with the bytes after it is one of the grammar**, at every place. -/
def IsLexed (found : Lexeme × List UInt8) : Prop :=
  ∀ span, Lexes span found.1.bytes found.2 (found.1.item span)

/-- Bytes go on with a quoted text if no quote is among them. -/
theorem forall_isContent_iff {content : List UInt8} :
    (∀ b ∈ content, isContent b = true) ↔ Byte.quote ∉ content := by
  simp only [isContent, bne_iff_ne]
  exact List.forall_mem_ne'

/-- Bytes go on with a quoted text that is not closed if no newline is among them. -/
theorem forall_isOnLine_iff {content : List UInt8} :
    (∀ b ∈ content, isOnLine b = true) ↔ Byte.newline ∉ content := by
  simp only [isOnLine, bne_iff_ne]
  exact List.forall_mem_ne'

/-- A quoted text that is not closed stops before a newline, or at the end of the source. -/
theorem stops_isOnLine_iff {rest : List UInt8} :
    Stops isOnLine rest ↔ ∀ b ∈ rest.head?, b = Byte.newline := by
  simp [Stops, isOnLine]

/-- What is read after a quote. -/
theorem isLexed_readQuoted (rest : List UInt8) : IsLexed (readQuoted rest) := by
  intro span
  rw [readQuoted]
  cases after : rest.dropWhile isContent with
  | cons c after =>
      obtain ⟨-, inside, -⟩ := (takeWhile_eq_iff _ _).mp ⟨rfl, after⟩
      exact .string (forall_isContent_iff.mp inside)
  | nil =>
      obtain ⟨whole, inside, -⟩ := (takeWhile_eq_iff _ _).mp ⟨rfl, after⟩
      obtain ⟨split, line, ends⟩ := (takeWhile_eq_iff isOnLine rest).mp ⟨rfl, rfl⟩
      refine .unterminated ?_ (forall_isOnLine_iff.mp line) (stops_isOnLine_iff.mp ends)
      rw [← split, whole, List.append_nil]
      exact forall_isContent_iff.mp inside

/-- What is read after a digit. -/
theorem isLexed_readNumeral {b : UInt8} (digit : Byte.isDigit b = true) (rest : List UInt8) :
    IsLexed (readNumeral b rest) := by
  intro span
  obtain ⟨-, runs, stops⟩ := (takeWhile_eq_iff Byte.isNumeralPart rest).mp ⟨rfl, rfl⟩
  exact .number digit runs stops

/-- What is read after a letter. -/
theorem isLexed_readWord {b : UInt8} (starts : Byte.isWordStart b = true) (rest : List UInt8) :
    IsLexed (readWord b rest) := by
  intro span
  obtain ⟨-, runs, stops⟩ := (takeWhile_eq_iff Byte.isWordPart rest).mp ⟨rfl, rfl⟩
  have reserved_iff := fun k => Kind.word?_decode_eq_some_iff (k := k) (ascii_of_word starts runs)
  rw [readWord]
  dsimp only
  cases told : Kind.word? (Utf8.decode (b :: rest.takeWhile Byte.isWordPart)) with
  | some k =>
      obtain ⟨listed, text⟩ := (reserved_iff k).mp told
      have written : Lexes span (b :: rest.takeWhile Byte.isWordPart)
          (rest.dropWhile Byte.isWordPart) (.token (.fixed k span)) :=
        .reserved starts runs stops listed text
      rw [← text] at written
      exact written
  | none =>
      refine .identifier starts runs stops ?_
      intro k listed text
      rw [(reserved_iff k).mpr ⟨listed, text⟩] at told
      cases told

/-- What is read after an operator that an equals sign may follow. -/
theorem isLexed_readDoublable {single double : Kind} (listed : (single, double) ∈ Kind.doublables)
    (rest : List UInt8) : IsLexed (readDoublable single double rest) := by
  intro span
  cases rest with
  | nil => exact .alone listed (by simp [readDoublable])
  | cons c rest =>
      rw [readDoublable]
      split
      · exact .joined listed
      · next other => exact .alone listed (by simpa using other)

/-- What is read at a byte that starts no token. -/
theorem isLexed_readStray {b : UInt8} (other : ¬ Byte.Starts b) (rest : List UInt8) :
    IsLexed (readStray b rest) := by
  intro span
  rw [readStray]
  cases found : Utf8.first? (b :: rest) with
  | some found_at =>
      obtain ⟨c, after⟩ := found_at
      have split := Utf8.first?_eq_some_iff.mp found
      refine .character ?_
      intro b' first
      cases bytes : String.utf8EncodeChar c with
      | nil =>
          rw [bytes] at first
          cases first
      | cons b₁ more =>
          rw [bytes] at first split
          cases first
          cases split
          exact other
  | none =>
      refine .byte other ?_
      intro c more split
      rw [Utf8.first?_eq_some_iff.mpr split] at found
      cases found

/-- **What is read from bare bytes is an item of the grammar.** -/
theorem isLexed_read {b : UInt8} {rest : List UInt8} (bare : IsBare (b :: rest)) :
    IsLexed (read b rest) := by
  rw [read]
  split
  · exact isLexed_readQuoted rest
  next notQuote =>
  split
  · next digit => exact isLexed_readNumeral digit rest
  next notDigit =>
  split
  · next starts => exact isLexed_readWord starts rest
  next notWord =>
  split
  · next slash =>
      intro span
      apply Lexes.slash
      intro second
      obtain ⟨more, rfl⟩ := List.head?_eq_some_iff.mp second
      exact bare.comment ⟨more, by rw [slash]; rfl⟩
  next notSlash =>
  cases mark : Kind.mark? b with
  | some k =>
      intro span
      exact .mark (Kind.mark?_eq_some_iff.mp mark).1
  | none =>
      cases doublable : Kind.doublable? b with
      | some pair => exact isLexed_readDoublable (Kind.doublable?_eq_some_iff.mp doublable).1 rest
      | none =>
          apply isLexed_readStray
          rw [Byte.starts_iff]
          simp [notQuote, notDigit, notWord, notSlash, mark, doublable]

/-! ### Reading what is written -/

/-- A mark is no quote, no digit, no letter and no slash. -/
theorem read_of_mark? {b : UInt8} {k : Kind} (told : Kind.mark? b = some k) (rest : List UInt8) :
    read b rest = (fixed k, rest) := by
  have apart := Kind.forall_byte (p := fun b => (Kind.mark? b).isNone || (b != Byte.quote &&
    !Byte.isDigit b && !Byte.isWordStart b && b != Byte.slash)) (by decide +kernel) b
  simp only [told, Option.isNone_some, Bool.false_or, Bool.and_eq_true, bne_iff_ne,
    Bool.not_eq_true'] at apart
  simp [read, apart, told]

/-- An operator that an equals sign may follow is none of these either, and no mark. -/
theorem read_of_doublable? {b : UInt8} {single double : Kind}
    (told : Kind.doublable? b = some (single, double)) (rest : List UInt8) :
    read b rest = readDoublable single double rest := by
  have apart := Kind.forall_byte (p := fun b => (Kind.doublable? b).isNone || (b != Byte.quote &&
    !Byte.isDigit b && !Byte.isWordStart b && b != Byte.slash && (Kind.mark? b).isNone))
    (by decide +kernel) b
  simp only [told, Option.isNone_some, Bool.false_or, Bool.and_eq_true, bne_iff_ne,
    Bool.not_eq_true', Option.isNone_iff_eq_none] at apart
  simp [read, apart, told]

/-- A digit is no quote. -/
theorem read_of_isDigit {b : UInt8} (digit : Byte.isDigit b = true) (rest : List UInt8) :
    read b rest = readNumeral b rest := by
  have other : b ≠ Byte.quote := by
    rintro rfl
    cases digit
  rw [read, if_neg other, if_pos digit]

/-- A letter is no quote and no digit. -/
theorem read_of_isWordStart {b : UInt8} (starts : Byte.isWordStart b = true)
    (rest : List UInt8) : read b rest = readWord b rest := by
  have apart := Kind.forall_byte (p := fun b => !Byte.isWordStart b || (b != Byte.quote &&
    !Byte.isDigit b)) (by decide +kernel) b
  simp only [starts, Bool.not_true, Bool.false_or, Bool.and_eq_true, bne_iff_ne,
    Bool.not_eq_true'] at apart
  simp [read, apart, starts]

/-- A byte that starts no token is stray. -/
theorem read_of_not_starts {b : UInt8} (other : ¬ Byte.Starts b) (rest : List UInt8) :
    read b rest = readStray b rest := by
  simp only [Byte.starts_iff, not_or, not_exists, Bool.not_eq_true] at other
  obtain ⟨notQuote, notDigit, notWord, notSlash, mark, doublable⟩ := other
  have noMark : Kind.mark? b = none := Option.eq_none_iff_forall_ne_some.mpr mark
  have noDoublable : Kind.doublable? b = none := Option.eq_none_iff_forall_ne_some.mpr doublable
  simp [read, notQuote, notDigit, notWord, notSlash, noMark, noDoublable]

/-- Every text of a mark, and of an operator that an equals sign may follow, is one byte. -/
theorem exists_byte {k : Kind} (listed : k ∈ Kind.marks ∨ k ∈ Kind.doublables.map (·.1)) :
    ∃ b, Utf8.encode k.text = [b] := by
  have single : ∀ k ∈ Kind.marks ++ Kind.doublables.map (·.1),
      (Utf8.encode k.text).length = 1 := by
    decide +kernel
  exact List.length_eq_one_iff.mp (single k (List.mem_append.mpr listed))

/-- A quoted text is read from its bytes. -/
theorem read_quoted {content : List UInt8} (inside : Byte.quote ∉ content) (rest : List UInt8) :
    read Byte.quote (content ++ Byte.quote :: rest) = (quoted content, rest) := by
  have stops : Stops isContent (Byte.quote :: rest) := by
    intro b first
    cases first
    rfl
  obtain ⟨taken, left⟩ := (takeWhile_eq_iff isContent _).mpr
    ⟨rfl, forall_isContent_iff.mpr inside, stops⟩
  rw [read, if_pos rfl, readQuoted, left, taken]

/-- A quoted text that is not closed is read from its bytes. -/
theorem read_unclosed {content rest : List UInt8} (unclosed : Byte.quote ∉ content ++ rest)
    (line : Byte.newline ∉ content) (ends : ∀ b ∈ rest.head?, b = Byte.newline) :
    read Byte.quote (content ++ rest) = (.unclosed content, rest) := by
  -- No quote stops the bytes after the first one, and a newline does.
  obtain ⟨-, none⟩ := (takeWhile_eq_iff isContent (content ++ rest)).mpr
    ⟨(List.append_nil _).symm, forall_isContent_iff.mpr unclosed, by simp [Stops]⟩
  obtain ⟨taken, left⟩ := (takeWhile_eq_iff isOnLine (content ++ rest)).mpr
    ⟨rfl, forall_isOnLine_iff.mpr line, stops_isOnLine_iff.mpr ends⟩
  rw [read, if_pos rfl, readQuoted, none, taken, left]

/-- A character that starts no token is read from its bytes. -/
theorem read_stray {c : Char} (other : ∀ b ∈ (String.utf8EncodeChar c).head?, ¬ Byte.Starts b)
    (rest : List UInt8) :
    ∃ b bs, String.utf8EncodeChar c ++ rest = b :: bs ∧ read b bs = (stray c, rest) := by
  have found := Utf8.first?_encodeChar c rest
  cases bytes : String.utf8EncodeChar c with
  | nil =>
      have lost := Utf8.first?_encodeChar c []
      rw [bytes] at lost
      cases lost
  | cons b more =>
      rw [bytes] at other found
      refine ⟨b, more ++ rest, rfl, ?_⟩
      rw [List.cons_append] at found
      rw [read_of_not_starts (other b rfl), readStray, found]

/-- **An item of the grammar is read** from its bytes. -/
theorem read_of_lexes {span : Span} {bytes rest : List UInt8} {item : Item}
    (lexes : Lexes span bytes rest item) :
    ∃ b bs lexeme, bytes ++ rest = b :: bs ∧ read b bs = (lexeme, rest) ∧
      lexeme.item span = item := by
  cases lexes with
  | @mark k _ listed =>
      obtain ⟨b, text⟩ := exists_byte (.inl listed)
      refine ⟨b, rest, .fixed k, by rw [text]; rfl, ?_, rfl⟩
      exact read_of_mark? (Kind.mark?_eq_some_iff.mpr ⟨listed, text⟩) rest
  | @joined single double _ listed =>
      obtain ⟨b, text⟩ := exists_byte (.inr (List.mem_map_of_mem listed))
      have told := Kind.doublable?_eq_some_iff.mpr ⟨listed, text⟩
      have joined := (Kind.encode_text_of_doublable? told).2
      refine ⟨b, Byte.equals :: rest, .fixed double, by rw [joined]; rfl, ?_, rfl⟩
      rw [read_of_doublable? told]
      rfl
  | @alone single double _ listed alone =>
      obtain ⟨b, text⟩ := exists_byte (.inr (List.mem_map_of_mem listed))
      have told := Kind.doublable?_eq_some_iff.mpr ⟨listed, text⟩
      refine ⟨b, rest, .fixed single, by rw [text]; rfl, ?_, rfl⟩
      rw [read_of_doublable? told]
      cases rest with
      | nil => rfl
      | cons c rest => exact if_neg fun same => alone (by rw [same]; rfl)
  | slash alone => exact ⟨Byte.slash, rest, .fixed .slash, rfl, rfl, rfl⟩
  | @number b run _ digit runs stops =>
      obtain ⟨taken, left⟩ := (takeWhile_eq_iff Byte.isNumeralPart (run ++ rest)).mpr
        ⟨rfl, runs, stops⟩
      refine ⟨b, run ++ rest, .numeral (b :: run), rfl, ?_, rfl⟩
      rw [read_of_isDigit digit, readNumeral, taken, left]
  | @reserved b run _ k starts runs stops listed text =>
      obtain ⟨taken, left⟩ := (takeWhile_eq_iff Byte.isWordPart (run ++ rest)).mpr
        ⟨rfl, runs, stops⟩
      have told := (Kind.word?_decode_eq_some_iff (ascii_of_word starts runs)).mpr ⟨listed, text⟩
      refine ⟨b, run ++ rest, .fixed k, rfl, ?_, rfl⟩
      rw [read_of_isWordStart starts, readWord]
      simp only [taken, left, told, Option.elim_some]
  | @identifier b run _ starts runs stops other =>
      obtain ⟨taken, left⟩ := (takeWhile_eq_iff Byte.isWordPart (run ++ rest)).mpr
        ⟨rfl, runs, stops⟩
      have told : Kind.word? (Utf8.decode (b :: run)) = none := by
        rw [Option.eq_none_iff_forall_ne_some]
        intro k told
        obtain ⟨listed, text⟩ :=
          (Kind.word?_decode_eq_some_iff (ascii_of_word starts runs)).mp told
        exact other k listed text
      refine ⟨b, run ++ rest, .word (b :: run), rfl, ?_, rfl⟩
      rw [read_of_isWordStart starts, readWord]
      simp only [taken, left, told, Option.elim_none]
  | @string content _ inside =>
      exact ⟨Byte.quote, content ++ Byte.quote :: rest, .quoted content, by simp,
        read_quoted inside rest, rfl⟩
  | @unterminated content _ unclosed line ends =>
      exact ⟨Byte.quote, content ++ rest, .unclosed content, rfl,
        read_unclosed unclosed line ends, rfl⟩
  | @character c _ other =>
      obtain ⟨b, bs, split, found⟩ := read_stray other rest
      exact ⟨b, bs, .stray c, split, found, rfl⟩
  | @byte b _ other broken =>
      refine ⟨b, rest, .malformed b, rfl, ?_, rfl⟩
      have missing : Utf8.first? (b :: rest) = none := by
        rw [Option.eq_none_iff_forall_ne_some]
        rintro ⟨c, more⟩ found
        exact broken c more (Utf8.first?_eq_some_iff.mp found)
      rw [read_of_not_starts other, readStray, missing]

/-- **Bare bytes start with one item of the grammar**, the longest lexeme. -/
theorem lexes_iff {span : Span} {b : UInt8} {bs bytes rest : List UInt8} {item : Item}
    (bare : IsBare (b :: bs)) (split : bytes ++ rest = b :: bs) :
    Lexes span bytes rest item ↔
      (read b bs).1.bytes = bytes ∧ (read b bs).2 = rest ∧ (read b bs).1.item span = item := by
  constructor
  · intro lexes
    obtain ⟨b', bs', lexeme, split', found, same⟩ := read_of_lexes lexes
    rw [split] at split'
    cases split'
    have whole := bytes_read b bs
    rw [found] at whole ⊢
    exact ⟨List.append_cancel_right (whole.trans split.symm), rfl, same⟩
  · rintro ⟨rfl, rfl, rfl⟩
    exact isLexed_read bare span

end Lexeme

end LoxSyntax
