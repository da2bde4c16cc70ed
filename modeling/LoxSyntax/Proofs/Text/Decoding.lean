import LoxSyntax.Lexical.Lossless
import Mathlib.Algebra.Ring.Nat

/-! # ASCII in bytes and in text
A byte of ASCII is a character by itself wherever it stands, in whatever bytes: it ends every
sequence before it and begins none. So encoding and decoding keep the ASCII characters of a text in
their order, and bytes are decoded apart on both sides of one.

1. *Encoding* keeps the ASCII characters.
2. *Pending sequences* end in code points beyond ASCII.
3. *Decoding* keeps the bytes of ASCII, and is cut by them. -/

namespace LoxSyntax

/-- Whether a byte is one of **ASCII**. -/
def Byte.isAscii (b : UInt8) : Bool := b.toNat < 0x80

theorem Byte.isAscii_iff {b : UInt8} : isAscii b = true ↔ b.toNat < 0x80 := decide_eq_true_iff

namespace Utf8

/-- **The ASCII characters** of a text, in order. -/
def ascii (s : String) : List Char := s.toList.filter (·.toNat < 0x80)

/-- The character of a byte of ASCII. -/
def asciiChar (b : UInt8) : Char := Char.ofNat b.toNat

/-- The byte of an ASCII character. -/
def asciiByte (c : Char) : UInt8 := UInt8.ofNat c.toNat

/-- The character of a byte of ASCII has the number of the byte. -/
theorem toNat_asciiChar {b : UInt8} (small : b.toNat < 0x80) : (asciiChar b).toNat = b.toNat :=
  toNat_ofNat (.inl (by omega))

/-- The byte of an ASCII character has the number of the character. -/
theorem toNat_asciiByte {c : Char} (small : c.toNat < 0x80) : (asciiByte c).toNat = c.toNat :=
  toNat_byte (by omega)

/-- The byte of an ASCII character is one of ASCII. -/
theorem isAscii_asciiByte {c : Char} (small : c.toNat < 0x80) :
    Byte.isAscii (asciiByte c) = true := by
  rwa [Byte.isAscii_iff, toNat_asciiByte small]

/-- Of a byte and a character in ASCII, one is that of the other exactly if the other is that of the
one. -/
theorem asciiChar_eq_iff {b : UInt8} {c : Char} (small : b.toNat < 0x80) (small' : c.toNat < 0x80) :
    asciiChar b = c ↔ b = asciiByte c := by
  rw [← Char.toNat_inj, ← UInt8.toNat_inj, toNat_asciiChar small, toNat_asciiByte small']

/-- The byte of an ASCII character has that character. -/
theorem asciiChar_asciiByte {c : Char} (small : c.toNat < 0x80) : asciiChar (asciiByte c) = c :=
  (asciiChar_eq_iff (by rwa [toNat_asciiByte small]) small).mpr rfl

/-- One character more. -/
theorem ascii_push (s : String) (c : Char) :
    ascii (s.push c) = ascii s ++ if c.toNat < 0x80 then [c] else [] := by
  rw [ascii, String.toList_push, List.filter_append, ascii]
  congr 1
  split
  · next small => simp [small]
  · next big => simp [big]

/-- A character of ASCII is one of the ASCII characters as often as it is in the text. -/
theorem count_ascii (s : String) {c : Char} (small : c.toNat < 0x80) :
    (ascii s).count c = s.toList.count c :=
  List.count_filter (by simpa using small)

/-! ## (1) Encoding -/

/-- A byte of ASCII is the encoding of the character of its number alone. -/
theorem toNat_of_mem_encodeChar {c : Char} {b : UInt8} (member : b ∈ String.utf8EncodeChar c)
    (small : b.toNat < 0x80) : c.toNat = b.toNat := by
  have apart : ∀ n, 0x80 ≤ n → n < 0x100 → b ≠ UInt8.ofNat n := by
    rintro n big bound rfl
    rw [toNat_byte bound] at small
    omega
  rcases encodeChar_cases c with ⟨lt, e⟩ | ⟨le, lt, e⟩ | ⟨le, lt, e⟩ | ⟨le, lt, e⟩ <;>
    rw [e] at member <;> simp only [List.mem_cons, List.not_mem_nil, or_false] at member
  · rw [member, toNat_byte (by omega)]
  · rcases member with same | same <;> exact absurd same (apart _ (by omega) (by omega))
  · rcases member with same | same | same <;> exact absurd same (apart _ (by omega) (by omega))
  · rcases member with same | same | same | same <;>
      exact absurd same (apart _ (by omega) (by omega))

/-- A character is encoded with a byte of ASCII exactly if it is one of ASCII, and then by that
alone. -/
theorem filter_encodeChar (c : Char) : (String.utf8EncodeChar c).filter Byte.isAscii =
    if c.toNat < 0x80 then [asciiByte c] else [] := by
  split
  · next small =>
      have alone : String.utf8EncodeChar c = [asciiByte c] := by
        rcases encodeChar_cases c with ⟨-, e⟩ | ⟨le, -⟩ | ⟨le, -⟩ | ⟨le, -⟩
        · exact e
        all_goals omega
      rw [alone, List.filter_cons_of_pos (isAscii_asciiByte small), List.filter_nil]
  · next big =>
      rw [List.filter_eq_nil_iff]
      intro b member told
      have small := Byte.isAscii_iff.mp told
      exact big (toNat_of_mem_encodeChar member small ▸ small)

/-- **Encoding keeps the ASCII characters.** -/
theorem filter_encode (s : String) : (encode s).filter Byte.isAscii = (ascii s).map asciiByte := by
  rw [encode, ascii]
  induction s.toList with
  | nil => rfl
  | cons c cs ih =>
      rw [List.flatMap_cons, List.filter_append, ih, filter_encodeChar, List.filter_cons]
      by_cases small : c.toNat < 0x80
      · simp [small]
      · simp [small]

/-- Characters of ASCII are encoded one by one. -/
theorem encode_of_ascii {text : String} (small : ∀ c ∈ text.toList, c.toNat < 0x80) :
    encode text = text.toList.map asciiByte := by
  have bytes : ∀ b ∈ text.toList.map asciiByte, b.toNat < 0x80 := by
    intro b member
    obtain ⟨c, inside, rfl⟩ := List.mem_map.mp member
    rw [toNat_asciiByte (small c inside)]
    exact small c inside
  have back : (text.toList.map asciiByte).map asciiChar = text.toList := by
    rw [List.map_map]
    have each : ∀ c ∈ text.toList, (asciiChar ∘ asciiByte) c = id c :=
      fun c member => asciiChar_asciiByte (small c member)
    rw [List.map_congr_left each, List.map_id]
  have whole : text.toList.map asciiByte =
      encode (String.ofList ((text.toList.map asciiByte).map asciiChar)) := eq_encode_of_ascii bytes
  rw [back, String.ofList_toList] at whole
  exact whole.symm

/-- A character of ASCII is encoded as often as it is in a text. -/
theorem count_encode (s : String) {c : Char} (small : c.toNat < 0x80) :
    (encode s).count (asciiByte c) = s.toList.count c := by
  rw [← List.count_filter (isAscii_asciiByte small), filter_encode, ← count_ascii s small,
    List.count, List.countP_map]
  refine List.countP_congr ?_
  intro c' member
  have small' : c'.toNat < 0x80 := of_decide_eq_true (List.mem_filter.mp member).2
  simp [← UInt8.toNat_inj, ← Char.toNat_inj, toNat_asciiByte small, toNat_asciiByte small']

/-! ## (2) Pending sequences -/

namespace Pending

/-- The least code point in which a sequence may end. -/
def least (p : Pending) : Nat := (p.bits * 64 + (p.low - 0x80)) * 64 ^ p.more

/-- The least number beyond the code points in which a sequence may end. -/
def beyond (p : Pending) : Nat := (p.bits * 64 + (p.high - 0x80) + 1) * 64 ^ p.more

/-- **A sequence that ends beyond ASCII**: no byte of ASCII goes on with it, and the code points in
which it may end are valid, and none of them is one of ASCII. -/
structure Sound (p : Pending) : Prop where
  /-- The bytes that go on with it are beyond ASCII. -/
  low : 0x80 ≤ p.low
  /-- Its code points are beyond ASCII. -/
  least : 0x80 ≤ p.least
  /-- They are no surrogates, and not too great. -/
  beyond : p.beyond ≤ 0xD800 ∨ 0xE000 ≤ p.least ∧ p.beyond ≤ 0x110000

/-- What goes on with a sound sequence is beyond ASCII, and so is the character that ends it. -/
theorem Sound.take {p : Pending} (sound : p.Sound) (b : UInt8) :
    match p.take b with
    | .whole c => 0x80 ≤ b.toNat ∧ 0x80 ≤ c.toNat
    | .part q => 0x80 ≤ b.toNat ∧ q.Sound
    | .broken => True := by
  obtain ⟨more, low, high, bits⟩ := p
  obtain ⟨le, least, beyond⟩ := sound
  simp only [Pending.least, Pending.beyond] at le least beyond
  by_cases inside : low ≤ b.toNat ∧ b.toNat ≤ high
  · cases more with
    | zero =>
        rw [take_last inside.1 inside.2]
        rw [Nat.pow_zero, Nat.mul_one] at least beyond
        refine ⟨by omega, ?_⟩
        rw [toNat_ofNat ?_]
        · omega
        · rw [Nat.isValidChar]
          omega
    | succ more =>
        rw [take_more inside.1 inside.2]
        -- The code points that are left are among those of the sequence.
        have above : (bits * 64 + (low - 0x80)) * 64 ^ (more + 1) ≤
            (bits * 64 + (b.toNat - 0x80)) * 64 ^ (more + 1) :=
          Nat.mul_le_mul_right _ (by omega)
        have below : (bits * 64 + (b.toNat - 0x80) + 1) * 64 ^ (more + 1) ≤
            (bits * 64 + (high - 0x80) + 1) * 64 ^ (more + 1) :=
          Nat.mul_le_mul_right _ (by omega)
        have first : Pending.least ⟨more, 0x80, 0xBF, bits * 64 + (b.toNat - 0x80)⟩ =
            (bits * 64 + (b.toNat - 0x80)) * 64 ^ (more + 1) := by
          rw [Pending.least, Nat.pow_succ', ← Nat.mul_assoc, Nat.sub_self, Nat.add_zero]
        have last : Pending.beyond ⟨more, 0x80, 0xBF, bits * 64 + (b.toNat - 0x80)⟩ =
            (bits * 64 + (b.toNat - 0x80) + 1) * 64 ^ (more + 1) := by
          rw [Pending.beyond, Nat.pow_succ', ← Nat.mul_assoc]
          refine congrArg (· * 64 ^ more) ?_
          dsimp only
          omega
        refine ⟨by omega, Nat.le_refl _, ?_, ?_⟩
        · rw [first]
          omega
        · rw [first, last]
          omega
  · rw [take_broken (by dsimp only; omega)]
    trivial

end Pending

/-- **First bytes**: a byte of ASCII is its own character, a byte that opens a sequence opens a
sound one and is not of ASCII, and neither is one that starts nothing. -/
theorem sound_of_lead (b : UInt8) :
    match lead b with
    | .single c => b.toNat < 0x80 ∧ c = asciiChar b
    | .opens p => 0x80 ≤ b.toNat ∧ p.Sound
    | .stray => 0x80 ≤ b.toNat := by
  have told := Kind.forall_byte (p := fun b =>
    match lead b with
    | .single c => decide (b.toNat < 0x80) && c == asciiChar b
    | .opens p => decide (0x80 ≤ b.toNat) && decide (0x80 ≤ p.low) && decide (0x80 ≤ p.least) &&
        decide (p.beyond ≤ 0xD800 ∨ 0xE000 ≤ p.least ∧ p.beyond ≤ 0x110000)
    | .stray => decide (0x80 ≤ b.toNat)) (by decide +kernel) b
  split at told
  · next c single =>
      rw [Bool.and_eq_true, decide_eq_true_eq, beq_iff_eq] at told
      exact told
  · next p opened =>
      simp only [Bool.and_eq_true, decide_eq_true_eq] at told
      exact ⟨told.1.1.1, told.1.1.2, told.1.2, told.2⟩
  · next stray => exact of_decide_eq_true told

/-! ## (3) Decoding -/

namespace Decoder

/-- **A decoder between characters, or amid a sound sequence.** -/
def Sound (d : Decoder) : Prop := ∀ p ∈ d.pending, p.Sound

/-- Between characters a decoder is sound. -/
theorem sound_of_none (text : String) : Sound ⟨text, none⟩ := by
  intro p none
  cases none

/-- A character brings itself, if it is one of ASCII. -/
theorem ascii_emit (d : Decoder) (c : Char) :
    ascii (d.emit c).text = ascii d.text ++ if c.toNat < 0x80 then [c] else [] :=
  ascii_push ..

/-- What a byte is in ASCII. -/
theorem map_asciiChar_filter (b : UInt8) : ([b].filter Byte.isAscii).map asciiChar =
    if b.toNat < 0x80 then [asciiChar b] else [] := by
  split
  · next small => rw [List.filter_cons_of_pos (Byte.isAscii_iff.mpr small)]; rfl
  · next big => rw [List.filter_cons_of_neg (mt Byte.isAscii_iff.mp big)]; rfl

/-- The first byte of a sequence brings the character that it is in ASCII, if it is one. -/
theorem ascii_start (d : Decoder) (b : UInt8) :
    (d.start b).Sound ∧
      ascii (d.start b).text = ascii d.text ++ ([b].filter Byte.isAscii).map asciiChar := by
  have first := sound_of_lead b
  unfold start
  rw [map_asciiChar_filter]
  cases read : lead b with
  | single c =>
      rw [read] at first
      obtain ⟨small, rfl⟩ := first
      refine ⟨sound_of_none _, ?_⟩
      rw [ascii_emit, toNat_asciiChar small]
  | opens p =>
      rw [read] at first
      refine ⟨?_, by rw [if_neg (Nat.not_lt_of_le first.1), List.append_nil]⟩
      intro q same
      cases same
      exact first.2
  | stray =>
      -- What is written for it is a character beyond ASCII.
      rw [read] at first
      refine ⟨sound_of_none _, ?_⟩
      rw [ascii_emit, if_neg (by decide), if_neg (Nat.not_lt_of_le first)]

/-- **A byte brings the character that it is in ASCII**, if it is one. -/
theorem Sound.ascii_step {d : Decoder} (sound : d.Sound) (b : UInt8) :
    (d.step b).Sound ∧
      ascii (d.step b).text = ascii d.text ++ ([b].filter Byte.isAscii).map asciiChar := by
  have beyond : 0x80 ≤ b.toNat → ([b].filter Byte.isAscii).map asciiChar = [] := by
    intro big
    rw [map_asciiChar_filter, if_neg (Nat.not_lt_of_le big)]
  unfold step
  cases pending : d.pending with
  | none => exact ascii_start d b
  | some p =>
      have taken := (sound p pending).take b
      dsimp only
      cases progress : p.take b with
      | whole c =>
          rw [progress] at taken
          refine ⟨sound_of_none _, ?_⟩
          rw [ascii_emit, if_neg (Nat.not_lt_of_le taken.2), beyond taken.1]
      | part q =>
          rw [progress] at taken
          refine ⟨?_, by rw [beyond taken.1, List.append_nil]⟩
          intro q' same
          cases same
          exact taken.2
      | broken =>
          -- The byte comes after the replacement of what was pending, and starts anew.
          obtain ⟨sound', text⟩ := ascii_start (d.emit replacement) b
          rw [ascii_emit, if_neg (by decide), List.append_nil] at text
          exact ⟨sound', text⟩

/-- What is read after a decoder's text has the bytes of ASCII for its ASCII characters. -/
theorem Sound.ascii_finish {d : Decoder} (sound : d.Sound) (bytes : List UInt8) :
    ascii (bytes.foldl step d).finish =
      ascii d.text ++ (bytes.filter Byte.isAscii).map asciiChar := by
  induction bytes generalizing d with
  | nil =>
      rw [List.foldl_nil, finish, List.filter_nil, List.map_nil, List.append_nil]
      split
      · rfl
      · rw [ascii_push, if_neg (by decide), List.append_nil]
  | cons b bytes ih =>
      obtain ⟨sound', text⟩ := sound.ascii_step b
      rw [List.foldl_cons, ih sound', text, List.append_assoc, ← List.map_append,
        ← List.filter_append]
      rfl

/-- A byte of ASCII ends what is pending, and is a character by itself. -/
theorem Sound.step_ascii {d : Decoder} (sound : d.Sound) {b : UInt8} (small : b.toNat < 0x80) :
    d.step b = ⟨d.finish.push (asciiChar b), none⟩ := by
  have alone : ∀ d : Decoder, d.start b = d.emit (asciiChar b) := by
    intro d
    rw [start, lead_of_lt small]
    rfl
  unfold step finish
  cases pending : d.pending with
  | none => exact alone d
  | some p =>
      have low := (sound p pending).low
      dsimp only
      rw [take_broken (.inl (Nat.lt_of_lt_of_le small low))]
      exact alone _

/-- A decoder stays sound. -/
theorem Sound.foldl_step {d : Decoder} (sound : d.Sound) (bytes : List UInt8) :
    (bytes.foldl step d).Sound := by
  induction bytes generalizing d with
  | nil => exact sound
  | cons b bytes ih => exact ih (sound.ascii_step b).1

/-- A decoder with a text in front of its own. -/
def after (text : String) (d : Decoder) : Decoder := ⟨text ++ d.text, d.pending⟩

/-- A text in front is pushed onto at its end. -/
theorem push_append (text t : String) (c : Char) : (text ++ t).push c = text ++ t.push c := by
  apply String.toList_injective
  simp

/-- The text in front stays there, whatever byte is read. -/
theorem step_after (text : String) (d : Decoder) (b : UInt8) :
    step (after text d) b = after text (d.step b) := by
  have emits : ∀ (d : Decoder) (c : Char), (after text d).emit c = after text (d.emit c) := by
    intro d c
    rw [emit, emit, after, after, push_append]
  have starts : ∀ d : Decoder, (after text d).start b = after text (d.start b) := by
    intro d
    unfold start
    cases lead b with
    | single c => exact emits d c
    | opens p => rfl
    | stray => exact emits d replacement
  unfold step
  cases pending : d.pending with
  | none =>
      simp only [after, pending]
      exact starts d
  | some p =>
      simp only [after, pending]
      cases p.take b with
      | whole c => exact emits d c
      | part q => rfl
      | broken =>
          have both := starts (d.emit replacement)
          rw [← emits] at both
          exact both

/-- The text in front stays there, whatever bytes are read. -/
theorem finish_after (text : String) (d : Decoder) (bytes : List UInt8) :
    (bytes.foldl step (after text d)).finish = text ++ (bytes.foldl step d).finish := by
  induction bytes generalizing d with
  | nil =>
      simp only [List.foldl_nil, finish, after]
      cases d.pending with
      | none => rfl
      | some p => exact push_append ..
  | cons b bytes ih => rw [List.foldl_cons, step_after, ih, List.foldl_cons]

end Decoder

/-- Bytes of ASCII are decoded one by one. -/
theorem toList_decode_of_ascii {bytes : List UInt8} (small : ∀ b ∈ bytes, b.toNat < 0x80) :
    (decode bytes).toList = bytes.map asciiChar := by
  have text : decode bytes = String.ofList (bytes.map asciiChar) :=
    (congrArg decode (eq_encode_of_ascii small)).trans (decode_encode _)
  rw [text, String.toList_ofList]

/-- **Decoding keeps the bytes of ASCII** as the ASCII characters, of whatever bytes. -/
theorem ascii_decode (bytes : List UInt8) :
    ascii (decode bytes) = (bytes.filter Byte.isAscii).map asciiChar :=
  (Decoder.sound_of_none "").ascii_finish bytes

/-- A character of ASCII is decoded as often as its byte is among the bytes. -/
theorem count_decode (bytes : List UInt8) {c : Char} (small : c.toNat < 0x80) :
    (decode bytes).toList.count c = bytes.count (asciiByte c) := by
  rw [← count_ascii _ small, ascii_decode, ← List.count_filter (isAscii_asciiByte small),
    List.count, List.countP_map]
  refine List.countP_congr ?_
  intro b member
  have small' := Byte.isAscii_iff.mp (List.mem_filter.mp member).2
  simp [asciiChar_eq_iff small' small]

/-- **Bytes are cut by a byte of ASCII**: those before and those after it are decoded apart. -/
theorem decode_append_cons (front back : List UInt8) {b : UInt8} (small : b.toNat < 0x80) :
    decode (front ++ b :: back) =
      decode front ++ String.singleton (asciiChar b) ++ decode back := by
  have middle := ((Decoder.sound_of_none "").foldl_step front).step_ascii small
  have first : Decoder.step (front.foldl Decoder.step {}) b =
      .after (decode front ++ String.singleton (asciiChar b)) {} := by
    rw [middle, Decoder.after, String.append_empty, String.append_singleton]
    rfl
  rw [decode, List.foldl_append, List.foldl_cons, first, Decoder.finish_after]
  rfl

/-- Bytes in quotes are decoded in quotes. -/
theorem decode_quoted (content : List UInt8) :
    decode (Byte.quote :: (content ++ [Byte.quote])) = "\"" ++ decode content ++ "\"" := by
  have opened := decode_append_cons [] (content ++ [Byte.quote]) (b := Byte.quote) (by decide)
  have closed := decode_append_cons content [] (b := Byte.quote) (by decide)
  rw [List.nil_append] at opened
  rw [opened, closed, decode_nil, String.empty_append, String.append_empty, ← String.append_assoc]
  rfl

/-- A text without quotes is encoded without the byte of a quote. -/
theorem quote_not_mem_encode {s : String} (unquoted : '"' ∉ s.toList) :
    Byte.quote ∉ encode s := by
  have none := count_encode s (c := '"') (by decide)
  rw [List.count_eq_zero.mpr unquoted] at none
  exact List.count_eq_zero.mp none

/-- Bytes without that of a quote are decoded to a text without quotes. -/
theorem quote_not_mem_decode {bytes : List UInt8} (inside : Byte.quote ∉ bytes) :
    '"' ∉ (decode bytes).toList := by
  have none := count_decode bytes (c := '"') (by decide)
  rw [show asciiByte '"' = Byte.quote from rfl, List.count_eq_zero.mpr inside] at none
  exact List.count_eq_zero.mp none

end Utf8

end LoxSyntax
