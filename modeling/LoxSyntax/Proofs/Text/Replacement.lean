import LoxSyntax.Text.Encoding

/-! # What replacement characters stand for
Decoding is told here without a decoder: bytes are read as the characters that they encode, and
where no encoding starts, the longest bytes that begin one, or a single byte if none does, are read
as one replacement character. `decode_eq_iff` says that this is the only way to read some bytes, and
that `decode` reads them so.

1. *Beginnings*: what a pending sequence knows of the bytes before it.
2. *Readings*: the relation, and that it reads bytes in one way.
3. *Decoding*: byte by byte. -/

namespace LoxSyntax.Utf8

/-! ## (1) Beginnings -/

/-- A character is encoded with at least one byte. -/
theorem encodeChar_ne_nil (c : Char) : String.utf8EncodeChar c ≠ [] := by
  intro empty
  have found := first?_encodeChar c []
  rw [empty] at found
  cases found

/-- **No encoding begins another one**, so the character that starts some bytes is the only one. -/
theorem encodeChar_append_inj {c d : Char} {rest rest' : List UInt8}
    (same : String.utf8EncodeChar c ++ rest = String.utf8EncodeChar d ++ rest') :
    c = d ∧ rest = rest' := by
  have found := first?_encodeChar c rest
  rw [same, first?_encodeChar, Option.some.injEq, Prod.mk.injEq] at found
  exact ⟨found.1.symm, found.2.symm⟩

/-- No character is found where no encoding starts. -/
theorem first?_eq_none_iff {bs : List UInt8} :
    first? bs = none ↔ ∀ c, ¬ String.utf8EncodeChar c <+: bs := by
  rw [Option.eq_none_iff_forall_ne_some]
  constructor
  · rintro none c ⟨rest, split⟩
    exact none (c, rest) (first?_eq_some_iff.mpr split.symm)
  · rintro none ⟨c, rest⟩ found
    exact none c ⟨rest, (first?_eq_some_iff.mp found).symm⟩

namespace Pending

/-- A pending sequence that a byte can go on with. -/
def Open (p : Pending) : Prop := p.low ≤ p.high ∧ p.high < 0x100

/-- After the second byte of a sequence the bounds are those of all continuation bytes. -/
theorem open_rest (more bits : Nat) : Open ⟨more, 0x80, 0xBF, bits⟩ := by
  simp [Open]

/-- **A pending sequence that some bytes have begun.** -/
structure Begun (p : Pending) (seen : List UInt8) : Prop where
  /-- What follows finishes the sequence if it makes a character with the bytes. -/
  finish : ∀ bs, first? (seen ++ bs) = p.finish? bs
  /-- Some byte can follow. -/
  canGoOn : p.Open
  /-- There is a byte. -/
  written : seen ≠ []

/-- A sequence that a byte can go on with can be finished. -/
theorem Open.exists_finish? {p : Pending} (canGoOn : p.Open) :
    ∃ bs c, p.finish? bs = some (c, []) := by
  obtain ⟨more, low, high, bits⟩ := p
  induction more generalizing low high bits with
  | zero =>
      obtain ⟨le, lt⟩ := canGoOn
      dsimp only at le lt
      have least := toNat_byte (Nat.lt_of_le_of_lt le lt)
      refine ⟨[UInt8.ofNat low], Char.ofNat (bits * 64 + (low - 0x80)), ?_⟩
      rw [finish?, take_last (Nat.le_of_eq least.symm) (by rwa [least]), least]
  | succ more ih =>
      obtain ⟨le, lt⟩ := canGoOn
      dsimp only at le lt
      have least := toNat_byte (Nat.lt_of_le_of_lt le lt)
      obtain ⟨bs, c, finished⟩ := ih _ _ _ (open_rest more (bits * 64 + (low - 0x80)))
      refine ⟨UInt8.ofNat low :: bs, c, ?_⟩
      rw [finish?, take_more (Nat.le_of_eq least.symm) (by rwa [least]), least]
      exact finished

/-- What a byte that goes on with a sequence leaves can be gone on with. -/
theorem open_of_take {p q : Pending} {b : UInt8} (taken : p.take b = .part q) : q.Open := by
  obtain ⟨more, low, high, bits⟩ := p
  by_cases range : low ≤ b.toNat ∧ b.toNat ≤ high
  · cases more with
    | zero =>
        rw [take_last range.1 range.2] at taken
        cases taken
    | succ more =>
        rw [take_more range.1 range.2] at taken
        cases taken
        exact open_rest more _
  · rw [take_broken (by dsimp only; omega)] at taken
    cases taken

/-- In every row of the lead byte table some second byte can follow. -/
theorem open_of_lead {p : Pending} {b : UInt8} (opened : lead b = .opens p) : p.Open := by
  simp only [lead, Open] at opened ⊢
  grind

/-- A byte that opens a sequence begins it. -/
theorem begun_of_lead {p : Pending} {b : UInt8} (opened : lead b = .opens p) : p.Begun [b] where
  finish bs := by
    rw [List.singleton_append, first?, opened]
  canGoOn := open_of_lead opened
  written := List.cons_ne_nil b []

/-- Some bytes that have begun a sequence begin the encoding of a character. -/
theorem Begun.exists_encodeChar {p : Pending} {seen : List UInt8} (begun : p.Begun seen) :
    ∃ c, seen <+: String.utf8EncodeChar c := by
  obtain ⟨bs, c, finished⟩ := begun.canGoOn.exists_finish?
  rw [← begun.finish] at finished
  have split := first?_eq_some_iff.mp finished
  rw [List.append_nil] at split
  exact ⟨c, bs, split⟩

/-- A byte that ends a sequence ends the encoding of the character. -/
theorem Begun.whole {p : Pending} {seen : List UInt8} (begun : p.Begun seen) {b : UInt8} {c : Char}
    (taken : p.take b = .whole c) : seen ++ [b] = String.utf8EncodeChar c := by
  have finished := begun.finish [b]
  rw [finish?, taken] at finished
  have split := first?_eq_some_iff.mp finished
  rwa [List.append_nil] at split

/-- A byte that goes on with a sequence is one of those that have begun it. -/
theorem Begun.part {p q : Pending} {seen : List UInt8} (begun : p.Begun seen) {b : UInt8}
    (taken : p.take b = .part q) : q.Begun (seen ++ [b]) where
  finish bs := by
    rw [List.append_assoc, List.singleton_append, begun.finish, finish?, taken]
  canGoOn := open_of_take taken
  written := by simp

end Pending

/-! ## (2) Readings -/

/-- **A broken beginning** in front of some bytes. -/
structure IsBroken (bad rest : List UInt8) : Prop where
  /-- No character starts there. -/
  none : ∀ c, ¬ String.utf8EncodeChar c <+: bad ++ rest
  /-- There is a byte. -/
  written : bad ≠ []
  /-- The bytes begin a character, or are a single byte. -/
  begins : bad.length = 1 ∨ ∃ c, bad <+: String.utf8EncodeChar c
  /-- No more bytes begin one. -/
  longest : ∀ more, more <+: bad ++ rest → (∃ c, more <+: String.utf8EncodeChar c) →
    more.length ≤ bad.length

/-- **What bytes are read as**: characters where they are encoded, and one replacement character for
each broken beginning. -/
inductive Reads : List UInt8 → List Char → Prop where
  /-- Nothing is left. -/
  | nil : Reads [] []
  /-- A character, and what follows it. -/
  | character {c : Char} {rest : List UInt8} {text : List Char} (more : Reads rest text) :
    Reads (String.utf8EncodeChar c ++ rest) (c :: text)
  /-- A broken beginning, and what follows it. -/
  | broken {bad rest : List UInt8} {text : List Char} (broken : IsBroken bad rest)
    (more : Reads rest text) : Reads (bad ++ rest) (replacement :: text)

/-- One broken beginning is no longer than another one of the same bytes. -/
theorem IsBroken.length_le {bad rest bad' rest' : List UInt8} (broken : IsBroken bad rest)
    (broken' : IsBroken bad' rest') (same : bad ++ rest = bad' ++ rest') :
    bad'.length ≤ bad.length := by
  rcases broken'.begins with single | begins
  · rw [single]
    exact List.length_pos_iff.mpr broken.written
  · refine broken.longest bad' ?_ begins
    rw [same]
    exact List.prefix_append bad' rest'

/-- **Bytes are read in one way.** -/
theorem Reads.unique {bytes : List UInt8} {text text' : List Char} (reads : Reads bytes text)
    (reads' : Reads bytes text') : text = text' := by
  induction reads generalizing text' with
  | nil =>
      generalize empty : ([] : List UInt8) = bytes at reads'
      cases reads' with
      | nil => rfl
      | @character c =>
          exact absurd (List.append_eq_nil_iff.mp empty.symm).1 (encodeChar_ne_nil c)
      | broken broken => exact absurd (List.append_eq_nil_iff.mp empty.symm).1 broken.written
  | @character c rest text more ih =>
      generalize same : String.utf8EncodeChar c ++ rest = bytes at reads'
      cases reads' with
      | nil => exact absurd (List.append_eq_nil_iff.mp same).1 (encodeChar_ne_nil c)
      | character more' =>
          obtain ⟨rfl, rfl⟩ := encodeChar_append_inj same
          rw [ih more']
      | broken broken =>
          refine absurd ?_ (broken.none c)
          rw [← same]
          exact List.prefix_append _ rest
  | @broken bad rest text broken more ih =>
      generalize same : bad ++ rest = bytes at reads'
      cases reads' with
      | nil => exact absurd (List.append_eq_nil_iff.mp same).1 broken.written
      | @character c rest' =>
          refine absurd ?_ (broken.none c)
          rw [same]
          exact List.prefix_append _ rest'
      | broken broken' more' =>
          have length := Nat.le_antisymm (broken'.length_le broken same.symm)
            (broken.length_le broken' same)
          obtain ⟨rfl, rfl⟩ := List.append_inj same length
          rw [ih more']

/-! ## (3) Decoding -/

/-- Bytes that have begun a sequence are broken before a byte that cannot go on with it, and at the
end. -/
theorem Pending.Begun.isBroken {p : Pending} {seen rest : List UInt8} (begun : p.Begun seen)
    (stuck : ∀ b ∈ rest.head?, p.take b = .broken) : IsBroken seen rest := by
  have unfinished : ∀ bs, (∀ b ∈ bs.head?, p.take b = .broken) → first? (seen ++ bs) = none := by
    intro bs stuck
    rw [begun.finish]
    cases bs with
    | nil => rfl
    | cons b bs => rw [finish?, stuck b rfl]
  refine ⟨first?_eq_none_iff.mp (unfinished rest stuck), begun.written,
    .inr begun.exists_encodeChar, ?_⟩
  rintro more starts ⟨c, others, split⟩
  refine Nat.le_of_not_lt fun longer => ?_
  -- What is longer goes on with the next byte, and that makes no character.
  obtain ⟨taken, rfl⟩ := List.prefix_of_prefix_length_le (List.prefix_append seen rest) starts
    (Nat.le_of_lt longer)
  have stuck' : ∀ b ∈ (taken ++ others).head?, p.take b = .broken := by
    intro b first
    cases taken with
    | nil => simp at longer
    | cons b' taken =>
        cases first
        obtain ⟨after, rfl⟩ := (List.prefix_append_right_inj seen).mp starts
        exact stuck _ rfl
  have none := unfinished _ stuck'
  rw [← List.append_assoc, split, ← List.append_nil (String.utf8EncodeChar c),
    first?_encodeChar] at none
  cases none

/-- A byte that starts no sequence is a broken beginning by itself. -/
theorem isBroken_of_stray {b : UInt8} (stray : lead b = .stray) (rest : List UInt8) :
    IsBroken [b] rest := by
  have none : ∀ bs, first? (b :: bs) = none := by
    intro bs
    rw [first?, stray]
  refine ⟨first?_eq_none_iff.mp (none rest), List.cons_ne_nil b [], .inl rfl, ?_⟩
  rintro more starts ⟨c, others, split⟩
  cases more with
  | nil => exact Nat.zero_le _
  | cons b' more =>
      obtain ⟨rfl, -⟩ := List.cons_prefix_cons.mp starts
      have found := first?_encodeChar c []
      rw [List.append_nil, ← split, List.cons_append, none] at found
      cases found

namespace Decoder

/-- **A decoder amid some bytes**: those of the sequence that it is in the middle of. -/
def Amid (d : Decoder) (seen : List UInt8) : Prop :=
  match d.pending with
  | none => seen = []
  | some p => p.Begun seen

/-- After a character a decoder is amid nothing. -/
theorem amid_emit (d : Decoder) (c : Char) : (d.emit c).Amid [] := rfl

/-- **A decoder reads some bytes**, whatever it is amid: together with what it is amid, and after
what it has read before. -/
def ReadsOn (bytes : List UInt8) : Prop :=
  ∀ {d : Decoder} {seen : List UInt8}, d.Amid seen → ∃ text, Reads (seen ++ bytes) text ∧
    (bytes.foldl step d).finish.toList = d.text.toList ++ text

/-- At the end, what a decoder is amid is a broken beginning. -/
theorem readsOn_nil : ReadsOn [] := by
  rintro ⟨before, pending⟩ seen amid
  cases pending with
  | none =>
      obtain rfl : seen = [] := amid
      exact ⟨[], .nil, (List.append_nil _).symm⟩
  | some p =>
      have begun : p.Begun seen := amid
      refine ⟨[replacement], .broken (begun.isBroken (by simp)) .nil, ?_⟩
      exact String.toList_push replacement

/-- What is read after a character comes after it. -/
theorem ReadsOn.emit {bytes : List UInt8} (readsOn : ReadsOn bytes) (d : Decoder) (c : Char) :
    ∃ text, Reads bytes text ∧
      (bytes.foldl step (d.emit c)).finish.toList = d.text.toList ++ c :: text := by
  obtain ⟨text, reads, same⟩ := readsOn (amid_emit d c)
  refine ⟨text, reads, ?_⟩
  rw [same, Decoder.emit, String.toList_push, List.append_assoc]
  rfl

/-- A byte at which a decoder starts is a character, opens a sequence, or is a broken beginning. -/
theorem ReadsOn.start {bytes : List UInt8} (readsOn : ReadsOn bytes) (d : Decoder) (b : UInt8) :
    ∃ text, Reads (b :: bytes) text ∧
      (bytes.foldl step (d.start b)).finish.toList = d.text.toList ++ text := by
  unfold Decoder.start
  cases first : lead b with
  | single c =>
      obtain ⟨text, reads, same⟩ := readsOn.emit d c
      have alone : [b] = String.utf8EncodeChar c := by
        have found : first? [b] = some (c, []) := by
          rw [first?, first]
        have split := first?_eq_some_iff.mp found
        rwa [List.append_nil] at split
      refine ⟨c :: text, ?_, same⟩
      rw [← List.singleton_append, alone]
      exact .character reads
  | opens p =>
      have amid : Amid ⟨d.text, some p⟩ [b] := Pending.begun_of_lead first
      exact readsOn amid
  | stray =>
      obtain ⟨text, reads, same⟩ := readsOn.emit d replacement
      exact ⟨_, .broken (isBroken_of_stray first bytes) reads, same⟩

/-- **One more byte in front**: the decoder starts at it, or it ends, goes on with or breaks off the
sequence that the decoder is amid. -/
theorem ReadsOn.cons {bytes : List UInt8} (readsOn : ReadsOn bytes) (b : UInt8) :
    ReadsOn (b :: bytes) := by
  rintro ⟨before, pending⟩ seen amid
  rw [List.foldl_cons, step]
  cases pending with
  | none =>
      obtain rfl : seen = [] := amid
      exact readsOn.start ⟨before, none⟩ b
  | some p =>
      have begun : p.Begun seen := amid
      dsimp only
      cases taken : p.take b with
      | whole c =>
          obtain ⟨text, reads, same⟩ := readsOn.emit ⟨before, some p⟩ c
          refine ⟨c :: text, ?_, same⟩
          rw [List.append_cons, begun.whole taken]
          exact .character reads
      | part q =>
          have amid' : Amid ⟨before, some q⟩ (seen ++ [b]) := begun.part taken
          rw [List.append_cons]
          exact readsOn amid'
      | broken =>
          obtain ⟨text, reads, same⟩ := readsOn.start (Decoder.emit ⟨before, some p⟩ replacement) b
          have stuck : ∀ b' ∈ (b :: bytes).head?, p.take b' = .broken := by
            intro b' first
            cases first
            exact taken
          refine ⟨replacement :: text, .broken (begun.isBroken stuck) reads, ?_⟩
          rw [same, Decoder.emit, String.toList_push, List.append_assoc]
          rfl

/-- A decoder reads any bytes. -/
theorem readsOn (bytes : List UInt8) : ReadsOn bytes := by
  induction bytes with
  | nil => exact readsOn_nil
  | cons b bytes ih => exact ih.cons b

end Decoder

/-- **Decoding reads bytes in the one way that they can be read**: as the characters encoded, with
one replacement character for each broken beginning. -/
theorem decode_eq_iff {bytes : List UInt8} {text : String} :
    decode bytes = text ↔ Reads bytes text.toList := by
  have amid : Decoder.Amid {} [] := rfl
  obtain ⟨read, reads, same⟩ := Decoder.readsOn bytes amid
  have whole : (decode bytes).toList = read := by
    rw [decode, same]
    rfl
  constructor
  · rintro rfl
    rwa [whole]
  · intro reads'
    exact String.toList_injective (whole.trans (reads.unique reads'))

/-- The bytes `E2 82`, which begin the sign of the euro, are one broken beginning, and `ED A0`,
which begin nothing, are two. -/
example : decode [0xE2, 0x82, 0xED, 0xA0] = "\ufffd\ufffd\ufffd" := by decide

end LoxSyntax.Utf8
