import LoxSyntax.Proofs.Text.Decoding
import LoxSyntax.Proofs.Text.Replacement

/-! # Where valid bytes are cut
The encoding of a text can be cut before and after every byte of ASCII, and wherever a part of it is
an encoding by itself. Both parts are then encodings (`IsValid.left`, `IsValid.right`), and the cut
is between two characters of the text (`position_of_split`). -/

namespace LoxSyntax.Utf8

/-- **Valid bytes**: they encode a text. -/
def IsValid (bytes : List UInt8) : Prop := ∃ text, bytes = encode text

/-- No bytes encode the empty text. -/
theorem isValid_nil : IsValid [] := ⟨"", rfl⟩

/-- The characters of a text are encoded one after the other. -/
theorem isValid_iff {bytes : List UInt8} :
    IsValid bytes ↔ ∃ cs : List Char, bytes = cs.flatMap String.utf8EncodeChar := by
  constructor
  · rintro ⟨text, rfl⟩
    exact ⟨text.toList, rfl⟩
  · rintro ⟨cs, rfl⟩
    exact ⟨String.ofList cs, by rw [encode, String.toList_ofList]⟩

/-- The encoding of a character is valid. -/
theorem isValid_encodeChar (c : Char) : IsValid (String.utf8EncodeChar c) :=
  isValid_iff.mpr ⟨[c], (List.flatMap_singleton ..).symm⟩

/-- Bytes of ASCII are valid. -/
theorem isValid_of_ascii {bytes : List UInt8} (ascii : ∀ b ∈ bytes, b.toNat < 0x80) :
    IsValid bytes :=
  ⟨_, eq_encode_of_ascii ascii⟩

/-- A byte of ASCII is valid. -/
theorem isValid_singleton {b : UInt8} (small : b.toNat < 0x80) : IsValid [b] :=
  isValid_of_ascii (by simpa using small)

/-- Valid bytes are given back by reading and encoding them. -/
theorem IsValid.encode_decode {bytes : List UInt8} (valid : IsValid bytes) :
    encode (decode bytes) = bytes := by
  obtain ⟨text, same⟩ := valid
  exact encode_decode_of_eq same

/-- Valid bytes after valid bytes are valid. -/
theorem IsValid.append {front back : List UInt8} (first : IsValid front) (second : IsValid back) :
    IsValid (front ++ back) := by
  obtain ⟨s, rfl⟩ := first
  obtain ⟨t, rfl⟩ := second
  exact ⟨s ++ t, (encode_append s t).symm⟩

/-- **What follows valid bytes in valid bytes is valid.** -/
theorem IsValid.right {front back : List UInt8} (whole : IsValid (front ++ back))
    (first : IsValid front) : IsValid back := by
  obtain ⟨ds, rfl⟩ := isValid_iff.mp first
  obtain ⟨cs, same⟩ := isValid_iff.mp whole
  rw [isValid_iff]
  clear whole first
  induction ds generalizing cs with
  | nil => exact ⟨cs, same⟩
  | cons d ds ih =>
      rw [List.flatMap_cons, List.append_assoc] at same
      cases cs with
      | nil => exact absurd (List.append_eq_nil_iff.mp same).1 (encodeChar_ne_nil d)
      | cons c cs =>
          exact ih cs (encodeChar_append_inj same).2

/-- **What comes before a byte of ASCII in valid bytes is valid.** -/
theorem IsValid.left {front back : List UInt8} {b : UInt8} (whole : IsValid (front ++ b :: back))
    (small : b.toNat < 0x80) : IsValid front := by
  obtain ⟨cs, same⟩ := isValid_iff.mp whole
  clear whole
  induction cs generalizing front with
  | nil => simp at same
  | cons c cs ih =>
      rw [List.flatMap_cons] at same
      rcases List.append_eq_append_iff.mp same with ⟨others, split, rest⟩ | ⟨others, rfl, rest⟩
      · cases others with
        | nil =>
            rw [List.append_nil] at split
            exact split ▸ isValid_encodeChar c
        | cons b' others =>
            -- The byte is one of the character, so it is all of it.
            obtain ⟨rfl, -⟩ := List.cons.inj rest
            have member : b ∈ String.utf8EncodeChar c := by simp [split]
            have number := toNat_of_mem_encodeChar member small
            rcases encodeChar_cases c with ⟨-, alone⟩ | ⟨le, -⟩ | ⟨le, -⟩ | ⟨le, -⟩
            · rw [alone] at split
              cases front with
              | nil => exact isValid_nil
              | cons b' front => simp at split
            all_goals omega
      · exact (isValid_encodeChar c).append (ih rest.symm)

/-- Bytes that end at a byte of ASCII or at the end of valid bytes are valid. -/
theorem IsValid.left_of_head? {front back : List UInt8} (whole : IsValid (front ++ back))
    (small : ∀ b ∈ back.head?, b.toNat < 0x80) : IsValid front := by
  cases back with
  | nil => rwa [List.append_nil] at whole
  | cons b back => exact whole.left (small b rfl)

/-- A text is encoded in as many bytes as it is said to have. -/
theorem length_encode (text : String) : (encode text).length = text.utf8ByteSize := by
  rw [← String.size_toByteArray, ← String.utf8Encode_toList, List.utf8Encode,
    List.size_toByteArray, encode]

/-- **A cut between valid bytes is between two characters** of the text that they encode. -/
theorem position_of_split {text : String} {front back : List UInt8}
    (split : encode text = front ++ back) (first : IsValid front) :
    (⟨front.length⟩ : String.Pos.Raw).IsValid text := by
  have whole : IsValid (front ++ back) := ⟨text, split.symm⟩
  obtain ⟨t, rfl⟩ := whole.right first
  obtain ⟨s, rfl⟩ := first
  have same : text = s ++ t := by
    rw [← decode_encode text, split, ← encode_append, decode_encode]
  rw [String.Pos.Raw.isValid_iff_exists_append]
  exact ⟨s, t, same, String.Pos.Raw.ext (length_encode s)⟩

end LoxSyntax.Utf8
