import LoxSyntax.Lexical.Byte
import LoxSyntax.Diagnostic
import LoxSyntax.Text.Utf8

/-! # Lexemes
What a source holds between layout, apart from where it stands. `Lexeme.read` takes the longest
lexeme off a byte list that is not empty and does not start with layout; `Lexeme.bytes` gives its
bytes back, and `Lexeme.item` makes it an item of a scan once its place is known. -/

namespace LoxSyntax

/-- A **lexeme**. -/
inductive Lexeme where
  /-- A mark, an operator or a reserved word. -/
  | fixed (kind : Kind)
  /-- A word that is not reserved. -/
  | word (text : List UInt8)
  /-- A digit and the digits and dots after it. -/
  | numeral (text : List UInt8)
  /-- A quoted text, given without its quotes. -/
  | quoted (content : List UInt8)
  /-- A quote that no later one closes, given by the bytes after it on its line. -/
  | unclosed (content : List UInt8)
  /-- A character that starts no token. -/
  | stray (c : Char)
  /-- A byte that starts no token and no character. -/
  | malformed (b : UInt8)
deriving DecidableEq, Repr

namespace Lexeme

/-- **The bytes of a lexeme.** -/
def bytes : Lexeme → List UInt8
  | fixed kind => Utf8.encode kind.text
  | word text => text
  | numeral text => text
  | quoted content => Byte.quote :: (content ++ [Byte.quote])
  | unclosed content => Byte.quote :: content
  | stray c => String.utf8EncodeChar c
  | malformed b => [b]

/-- The item that a lexeme is at a place. Text is decoded with replacement characters, the content
of a quoted text apart from its quotes. -/
def item (span : Span) : Lexeme → Item
  | fixed kind => .token (Token.fixed kind span)
  | word text =>
    let text := Utf8.decode text
    .token ⟨.identifier, text, some (.string text), span⟩
  | numeral text =>
    let text := Utf8.decode text
    .token ⟨.number, text, some (.number (numeralValue text.toList)), span⟩
  | quoted content =>
    .token ⟨.string, Utf8.decode (quoted content).bytes, some (.string (Utf8.decode content)), span⟩
  | unclosed _ => .fault (.unterminatedString span)
  | stray c => .fault (.unexpectedChar c span)
  | malformed _ => .fault (.unexpectedChar Utf8.replacement span)

/-! ## The longest lexeme -/

/-- Whether a byte goes on with a quoted text. -/
def isContent (b : UInt8) : Bool := b != Byte.quote

/-- Whether a byte goes on with a quoted text that is not closed. -/
def isOnLine (b : UInt8) : Bool := b != Byte.newline

/-- After a quote: up to the next quote, or to the end of the line if no quote follows at all. -/
def readQuoted (rest : List UInt8) : Lexeme × List UInt8 :=
  match rest.dropWhile isContent with
  | _ :: after => (quoted (rest.takeWhile isContent), after)
  | [] => (unclosed (rest.takeWhile isOnLine), rest.dropWhile isOnLine)

/-- After a digit: the digits and dots that follow. -/
def readNumeral (b : UInt8) (rest : List UInt8) : Lexeme × List UInt8 :=
  (numeral (b :: rest.takeWhile Byte.isNumeralPart), rest.dropWhile Byte.isNumeralPart)

/-- After a letter: the letters and digits that follow. The whole run is looked up among the
reserved words. -/
def readWord (b : UInt8) (rest : List UInt8) : Lexeme × List UInt8 :=
  let text := b :: rest.takeWhile Byte.isWordPart
  ((Kind.word? (Utf8.decode text)).elim (word text) fixed, rest.dropWhile Byte.isWordPart)

/-- After a doublable operator: joined with an equals sign directly after it. -/
def readDoublable (single double : Kind) : List UInt8 → Lexeme × List UInt8
  | [] => (fixed single, [])
  | c :: after => if c = Byte.equals then (fixed double, after) else (fixed single, c :: after)

/-- Where no token starts: one character, or one byte if no character starts there. -/
def readStray (b : UInt8) (rest : List UInt8) : Lexeme × List UInt8 :=
  match Utf8.first? (b :: rest) with
  | some (c, after) => (stray c, after)
  | none => (malformed b, rest)

/-- **The longest lexeme** of the byte list `b :: rest`, with the bytes after it. -/
def read (b : UInt8) (rest : List UInt8) : Lexeme × List UInt8 :=
  if b = Byte.quote then readQuoted rest
  else if Byte.isDigit b then readNumeral b rest
  else if Byte.isWordStart b then readWord b rest
  else if b = Byte.slash then (fixed .slash, rest)
  else
    match Kind.mark? b with
    | some kind => (fixed kind, rest)
    | none =>
      match Kind.doublable? b with
      | some (single, double) => readDoublable single double rest
      | none => readStray b rest

theorem length_dropWhile_le (p : UInt8 → Bool) (bs : List UInt8) :
    (bs.dropWhile p).length ≤ bs.length :=
  (List.dropWhile_sublist p).length_le

/-- A lexeme takes its first byte at least. -/
theorem length_read (b : UInt8) (rest : List UInt8) : (read b rest).2.length ≤ rest.length := by
  unfold read
  split
  · unfold readQuoted
    split
    · next after h =>
      have := length_dropWhile_le isContent rest
      rw [h, List.length_cons] at this
      exact Nat.le_of_succ_le this
    · exact length_dropWhile_le ..
  split
  · exact length_dropWhile_le ..
  split
  · exact length_dropWhile_le ..
  split
  · exact Nat.le_refl _
  split
  · exact Nat.le_refl _
  split
  · unfold readDoublable
    split
    · exact Nat.le_refl _
    · split
      · exact Nat.le_succ _
      · exact Nat.le_refl _
  · unfold readStray
    split
    · next h => exact Nat.le_of_lt_succ (Utf8.length_first? h)
    · exact Nat.le_refl _

end Lexeme

end LoxSyntax
