import LoxSyntax.Lexical.Lexeme
import LoxSyntax.Text.Encoding

/-! # No byte is lost by a lexeme
A lexeme keeps its bytes, those of a fixed kind in the text of the kind and those of a stray
character in the character. The main statement is `Lexeme.bytes_read`: a lexeme and the bytes after
it make up the list it was read from. -/

namespace LoxSyntax

/-- A letter, a digit or a low line is a byte of ASCII. -/
theorem Byte.lt_of_isWordPart {b : UInt8} (h : Byte.isWordPart b = true) : b.toNat < 0x80 := by
  simp only [Byte.isWordPart, Byte.isWordStart, Byte.isLetter, Byte.isDigit, Bool.or_eq_true,
    Bool.and_eq_true, decide_eq_true_eq, beq_iff_eq, UInt8.le_iff_toNat_le] at h
  rcases h with (h | rfl) | h
  · rcases h with ⟨-, h⟩ | ⟨-, h⟩
    · exact Nat.lt_of_le_of_lt h (by decide)
    · exact Nat.lt_of_le_of_lt h (by decide)
  · decide
  · exact Nat.lt_of_le_of_lt h.2 (by decide)

/-- A word runs on with the bytes that it may start with, among others. -/
theorem Byte.isWordPart_of_isWordStart {b : UInt8} (h : Byte.isWordStart b = true) :
    Byte.isWordPart b = true := by
  simp [Byte.isWordPart, h]

namespace Kind

/-- A property of all bytes can be checked one by one. -/
theorem forall_byte {p : UInt8 → Bool}
    (h : (List.range 256).all (fun n => p (UInt8.ofNat n)) = true)
    (b : UInt8) : p b = true := by
  have := List.all_eq_true.1 h b.toNat (List.mem_range.2 b.toNat_lt)
  rwa [UInt8.ofNat_toNat] at this

/-- A mark is written by the byte that it was told from. -/
theorem encode_text_of_mark? {b : UInt8} {k : Kind} (h : mark? b = some k) :
    Utf8.encode k.text = [b] := by
  have := forall_byte (p := fun b => (mark? b).all fun k => Utf8.encode k.text == [b])
    (by decide +kernel) b
  simpa [h] using this

/-- A doublable operator is written by the byte that it was told from, and its other form by that
byte and an equals sign. -/
theorem encode_text_of_doublable? {b : UInt8} {single double : Kind}
    (h : doublable? b = some (single, double)) :
    Utf8.encode single.text = [b] ∧ Utf8.encode double.text = [b, Byte.equals] := by
  have := forall_byte (p := fun b => (doublable? b).all fun pair =>
    Utf8.encode pair.1.text == [b] && Utf8.encode pair.2.text == [b, Byte.equals])
    (by decide +kernel) b
  simpa [h] using this

end Kind

namespace Lexeme

/-- A quoted text and what follows it make up the bytes from the opening quote on. -/
theorem bytes_readQuoted (rest : List UInt8) :
    (readQuoted rest).1.bytes ++ (readQuoted rest).2 = Byte.quote :: rest := by
  unfold readQuoted
  have parts := List.takeWhile_append_dropWhile (p := isContent) (l := rest)
  split
  · next c after h =>
    have closing : c = Byte.quote := by
      have := List.head?_dropWhile_not isContent rest
      rw [h] at this
      simpa [isContent] using this
    rw [h, closing] at parts
    simpa [bytes] using parts
  · simp [bytes, List.takeWhile_append_dropWhile]

/-- A word and what follows it make up the bytes from its first letter on. -/
theorem bytes_readWord {b : UInt8} (rest : List UInt8) (h : Byte.isWordStart b = true) :
    (readWord b rest).1.bytes ++ (readWord b rest).2 = b :: rest := by
  have parts := List.takeWhile_append_dropWhile (p := Byte.isWordPart) (l := rest)
  have ascii : ∀ c ∈ b :: rest.takeWhile Byte.isWordPart, c.toNat < 0x80 := by
    intro c hc
    rcases List.mem_cons.1 hc with rfl | hc
    · exact Byte.lt_of_isWordPart (Byte.isWordPart_of_isWordStart h)
    · exact Byte.lt_of_isWordPart (List.all_eq_true.1 List.all_takeWhile c hc)
  have same : (readWord b rest).1.bytes = b :: rest.takeWhile Byte.isWordPart := by
    simp only [readWord]
    cases hk : Kind.word? (Utf8.decode (b :: rest.takeWhile Byte.isWordPart)) with
    | none => rfl
    | some k =>
      simp only [Option.elim_some, bytes]
      rw [(Kind.word?_eq_some_iff.1 hk).2, Utf8.encode_decode_of_ascii ascii]
  rw [same]
  simp only [readWord, List.cons_append, parts]

/-- **Nothing is lost**: a lexeme and the bytes after it make up the list. -/
theorem bytes_read (b : UInt8) (rest : List UInt8) :
    (read b rest).1.bytes ++ (read b rest).2 = b :: rest := by
  unfold read
  split
  · next h => rw [h, bytes_readQuoted]
  split
  · simp [readNumeral, bytes, List.takeWhile_append_dropWhile]
  split
  · next h => exact bytes_readWord rest h
  split
  · next h => rw [h]; rfl
  split
  · next k hk => simp [bytes, Kind.encode_text_of_mark? hk]
  split
  · next single double hd =>
    have ⟨hs, hj⟩ := Kind.encode_text_of_doublable? hd
    unfold readDoublable
    split
    · simp [bytes, hs]
    · split
      · next h => simp [bytes, hj, h]
      · simp [bytes, hs]
  · unfold readStray
    split
    · next c after h => exact Utf8.encodeChar_first? h
    · rfl

end Lexeme

end LoxSyntax
