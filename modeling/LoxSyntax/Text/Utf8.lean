/-! # UTF-8 text in byte lists
Bytes become text in two ways. `Utf8.decode` reads any byte list: each well-formed sequence gives
its character, and each longest beginning of a sequence that is not finished gives one replacement
character. `Utf8.first?` reads one well-formed sequence at the head of a list, or nothing. Both are
driven by the same two facts about a byte: what it opens (`Utf8.lead`), and whether it continues a
sequence already opened (`Utf8.Pending.take`). `Utf8.encode` goes the other way. -/

namespace LoxSyntax.Utf8

/-- The character written for bytes that encode none. -/
def replacement : Char := '\ufffd'

/-- A **pending sequence**: its lead byte, and perhaps some continuation bytes, have been read. -/
structure Pending where
  /-- How many continuation bytes follow the next one. -/
  more : Nat
  /-- The least value the next byte may have. -/
  low : Nat
  /-- The greatest value the next byte may have. -/
  high : Nat
  /-- The bits of the code point read so far. -/
  bits : Nat
deriving DecidableEq, Repr

/-- What a byte is at the start of a sequence. -/
inductive Lead where
  /-- A character of its own. -/
  | single (c : Char)
  /-- The first byte of a longer sequence. -/
  | opens (p : Pending)
  /-- A byte that starts no sequence. -/
  | stray
deriving DecidableEq, Repr

/-- **The lead byte table.** The bounds on the second byte shut out overlong forms, surrogates and
code points above `0x10FFFF`. -/
def lead (b : UInt8) : Lead :=
  let n := b.toNat
  if n < 0x80 then .single (Char.ofNat n)
  else if n < 0xC2 then .stray
  else if n < 0xE0 then .opens ⟨0, 0x80, 0xBF, n - 0xC0⟩
  else if n < 0xF0 then
    .opens ⟨1, if n = 0xE0 then 0xA0 else 0x80, if n = 0xED then 0x9F else 0xBF, n - 0xE0⟩
  else if n < 0xF5 then
    .opens ⟨2, if n = 0xF0 then 0x90 else 0x80, if n = 0xF4 then 0x8F else 0xBF, n - 0xF0⟩
  else .stray

/-- What a byte does to a pending sequence. -/
inductive Progress where
  /-- It ends the sequence. -/
  | whole (c : Char)
  /-- It continues the sequence. -/
  | part (p : Pending)
  /-- It cannot follow, so the sequence stays unfinished. -/
  | broken
deriving DecidableEq, Repr

/-- Offer the next byte to a pending sequence; it brings six bits of the code point. -/
def Pending.take (p : Pending) (b : UInt8) : Progress :=
  if p.low ≤ b.toNat ∧ b.toNat ≤ p.high then
    let bits := p.bits * 64 + (b.toNat - 0x80)
    match p.more with
    | 0 => .whole (Char.ofNat bits)
    | more + 1 => .part ⟨more, 0x80, 0xBF, bits⟩
  else .broken

/-! ## One character -/

/-- Finish a pending sequence from the bytes that follow it. -/
def Pending.finish? (p : Pending) : List UInt8 → Option (Char × List UInt8)
  | [] => none
  | b :: bs =>
    match p.take b with
    | .whole c => some (c, bs)
    | .part q => q.finish? bs
    | .broken => none

/-- The character whose well-formed sequence starts the list, with the bytes after it. -/
def first? : List UInt8 → Option (Char × List UInt8)
  | [] => none
  | b :: bs =>
    match lead b with
    | .single c => some (c, bs)
    | .opens p => p.finish? bs
    | .stray => none

/-! ## Any bytes -/

/-- A **decoder**: the text so far and the sequence it is in the middle of, if any. -/
structure Decoder where
  /-- The text of the sequences already ended. -/
  text : String := ""
  /-- The sequence not yet ended. -/
  pending : Option Pending := none
deriving DecidableEq

namespace Decoder

/-- Add a character and be between sequences. -/
def emit (d : Decoder) (c : Char) : Decoder := ⟨d.text.push c, none⟩

/-- Read a byte as the first of a sequence. -/
def start (d : Decoder) (b : UInt8) : Decoder :=
  match lead b with
  | .single c => d.emit c
  | .opens p => ⟨d.text, some p⟩
  | .stray => d.emit replacement

/-- Read one byte. A byte that breaks a pending sequence ends it as one replacement character, and
is then read as the first byte of a sequence. -/
def step (d : Decoder) (b : UInt8) : Decoder :=
  match d.pending with
  | none => d.start b
  | some p =>
    match p.take b with
    | .whole c => d.emit c
    | .part q => ⟨d.text, some q⟩
    | .broken => (d.emit replacement).start b

/-- The text when no byte follows: a pending sequence is unfinished. -/
def finish (d : Decoder) : String :=
  match d.pending with
  | none => d.text
  | some _ => d.text.push replacement

end Decoder

/-- **The text of any bytes**, with one replacement character for each longest unfinished beginning
of a sequence and for each byte that starts none. -/
def decode (bytes : List UInt8) : String := (bytes.foldl Decoder.step {}).finish

/-- **The bytes of a text.** -/
def encode (text : String) : List UInt8 := text.toList.flatMap String.utf8EncodeChar

@[simp] theorem decode_nil : decode [] = "" := rfl

@[simp] theorem encode_append (s t : String) : encode (s ++ t) = encode s ++ encode t := by
  simp [encode]

@[simp] theorem first?_nil : first? [] = none := rfl

/-- A finished character takes at least one byte. -/
theorem Pending.length_finish? {p : Pending} {bs rest : List UInt8} {c : Char}
    (h : p.finish? bs = some (c, rest)) : rest.length < bs.length := by
  induction bs generalizing p with
  | nil => simp [Pending.finish?] at h
  | cons b bs ih =>
    rw [Pending.finish?] at h
    split at h
    · obtain ⟨-, rfl⟩ := Prod.mk.inj (Option.some.inj h); simp
    · exact Nat.lt_succ_of_lt (ih h)
    · simp at h

/-- A character takes at least one byte. -/
theorem length_first? {bs rest : List UInt8} {c : Char} (h : first? bs = some (c, rest)) :
    rest.length < bs.length := by
  cases bs with
  | nil => simp at h
  | cons b bs =>
    rw [first?] at h
    split at h
    · obtain ⟨-, rfl⟩ := Prod.mk.inj (Option.some.inj h); simp
    · exact Nat.lt_succ_of_lt (Pending.length_finish? h)
    · simp at h

end LoxSyntax.Utf8
