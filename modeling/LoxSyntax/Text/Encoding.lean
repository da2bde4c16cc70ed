import LoxSyntax.Text.Utf8

/-! # Reading back what was encoded
The two readers of UTF-8 against the encoder. `Utf8.first?` finds a character exactly where its
encoding starts (`Utf8.first?_eq_some_iff`), and `Utf8.decode` gives every text back from its
encoding (`Utf8.decode_encode`). -/

namespace LoxSyntax.Utf8

/-- A valid code point is the number of its character. -/
theorem toNat_ofNat {n : Nat} (h : n.isValidChar) : (Char.ofNat n).toNat = n := by
  unfold Char.ofNat
  rw [dif_pos h]
  rfl

/-- The number of a character is a valid code point. -/
theorem isValidChar_toNat (c : Char) : c.toNat.isValidChar := c.valid

/-- The number of a byte built from a small number. -/
theorem toNat_byte {n : Nat} (h : n < 0x100) : (UInt8.ofNat n).toNat = n := by
  rw [UInt8.toNat_ofNat']
  exact Nat.mod_eq_of_lt h

/-! ## What the encoder writes -/

/-- The four forms of an encoding, by the size of the code point. -/
theorem encodeChar_cases (c : Char) :
    (c.toNat < 0x80 ∧ String.utf8EncodeChar c = [UInt8.ofNat c.toNat]) ∨
    (0x80 ≤ c.toNat ∧ c.toNat < 0x800 ∧
      String.utf8EncodeChar c =
        [UInt8.ofNat (c.toNat / 64 + 0xC0), UInt8.ofNat (c.toNat % 64 + 0x80)]) ∨
    (0x800 ≤ c.toNat ∧ c.toNat < 0x10000 ∧
      String.utf8EncodeChar c =
        [UInt8.ofNat (c.toNat / 4096 + 0xE0), UInt8.ofNat (c.toNat / 64 % 64 + 0x80),
          UInt8.ofNat (c.toNat % 64 + 0x80)]) ∨
    (0x10000 ≤ c.toNat ∧ c.toNat < 0x110000 ∧
      String.utf8EncodeChar c =
        [UInt8.ofNat (c.toNat / 262144 + 0xF0), UInt8.ofNat (c.toNat / 4096 % 64 + 0x80),
          UInt8.ofNat (c.toNat / 64 % 64 + 0x80), UInt8.ofNat (c.toNat % 64 + 0x80)]) := by
  have valid := isValidChar_toNat c
  simp only [Nat.isValidChar] at valid
  simp only [String.utf8EncodeChar, Char.toNat] at valid ⊢
  generalize c.val.toNat = n at valid ⊢
  by_cases one : n ≤ 127
  · exact Or.inl ⟨by omega, if_pos one⟩
  by_cases two : n ≤ 2047
  · refine Or.inr (Or.inl ⟨by omega, by omega, ?_⟩)
    rw [if_neg one, if_pos two, show n / 64 % 32 = n / 64 by omega]
  by_cases three : n ≤ 65535
  · refine Or.inr (Or.inr (Or.inl ⟨by omega, by omega, ?_⟩))
    rw [if_neg one, if_neg two, if_pos three, show n / 4096 % 16 = n / 4096 by omega]
  · refine Or.inr (Or.inr (Or.inr ⟨by omega, by omega, ?_⟩))
    rw [if_neg one, if_neg two, if_neg three, show n / 262144 % 8 = n / 262144 by omega]

/-! ## How a sequence is read -/

/-- A byte below `0x80` is a character of its own. -/
theorem lead_of_lt {b : UInt8} (h : b.toNat < 0x80) : lead b = .single (Char.ofNat b.toNat) := by
  simp [lead, h]

/-- The first of two bytes. -/
theorem lead_two {b : UInt8} (h : 0xC2 ≤ b.toNat) (h' : b.toNat < 0xE0) :
    lead b = .opens ⟨0, 0x80, 0xBF, b.toNat - 0xC0⟩ := by
  simp [lead, h', show ¬ b.toNat < 0x80 by omega, show ¬ b.toNat < 0xC2 by omega]

/-- The first of three bytes. -/
theorem lead_three {b : UInt8} (h : 0xE0 ≤ b.toNat) (h' : b.toNat < 0xF0) :
    lead b = .opens ⟨1, if b.toNat = 0xE0 then 0xA0 else 0x80,
      if b.toNat = 0xED then 0x9F else 0xBF, b.toNat - 0xE0⟩ := by
  simp [lead, h', show ¬ b.toNat < 0x80 by omega, show ¬ b.toNat < 0xC2 by omega,
    show ¬ b.toNat < 0xE0 by omega]

/-- The first of four bytes. -/
theorem lead_four {b : UInt8} (h : 0xF0 ≤ b.toNat) (h' : b.toNat < 0xF5) :
    lead b = .opens ⟨2, if b.toNat = 0xF0 then 0x90 else 0x80,
      if b.toNat = 0xF4 then 0x8F else 0xBF, b.toNat - 0xF0⟩ := by
  simp [lead, h', show ¬ b.toNat < 0x80 by omega, show ¬ b.toNat < 0xC2 by omega,
    show ¬ b.toNat < 0xE0 by omega, show ¬ b.toNat < 0xF0 by omega]

/-- Every other byte is stray. -/
theorem lead_stray {b : UInt8} (h : 0x80 ≤ b.toNat) (h' : b.toNat < 0xC2 ∨ 0xF5 ≤ b.toNat) :
    lead b = .stray := by
  rcases h' with h' | h'
  · simp [lead, h', show ¬ b.toNat < 0x80 by omega]
  · simp [lead, show ¬ b.toNat < 0x80 by omega, show ¬ b.toNat < 0xC2 by omega,
      show ¬ b.toNat < 0xE0 by omega, show ¬ b.toNat < 0xF0 by omega,
      show ¬ b.toNat < 0xF5 by omega]

/-- A byte in range ends a sequence of which it is the last. -/
theorem take_last {low high bits : Nat} {b : UInt8} (h : low ≤ b.toNat) (h' : b.toNat ≤ high) :
    Pending.take ⟨0, low, high, bits⟩ b = .whole (Char.ofNat (bits * 64 + (b.toNat - 0x80))) := by
  simp [Pending.take, h, h']

/-- A byte in range continues a sequence of which it is not the last. -/
theorem take_more {more low high bits : Nat} {b : UInt8} (h : low ≤ b.toNat) (h' : b.toNat ≤ high) :
    Pending.take ⟨more + 1, low, high, bits⟩ b =
      .part ⟨more, 0x80, 0xBF, bits * 64 + (b.toNat - 0x80)⟩ := by
  simp [Pending.take, h, h']

/-- A byte out of range breaks a sequence. -/
theorem take_broken {p : Pending} {b : UInt8} (h : b.toNat < p.low ∨ p.high < b.toNat) :
    p.take b = .broken := by
  unfold Pending.take
  rw [if_neg (by omega)]

/-! ## One character -/

/-- **An encoding is read back**, whatever follows it. -/
theorem first?_encodeChar (c : Char) (rest : List UInt8) :
    first? (String.utf8EncodeChar c ++ rest) = some (c, rest) := by
  have valid := isValidChar_toNat c
  simp only [Nat.isValidChar] at valid
  have whole : ∀ n, n = c.toNat → Char.ofNat n = c := fun n h => h ▸ Char.ofNat_toNat c
  rcases encodeChar_cases c with ⟨h, e⟩ | ⟨h, h', e⟩ | ⟨h, h', e⟩ | ⟨h, h', e⟩ <;> rw [e]
  · have b₀ : (UInt8.ofNat c.toNat).toNat = c.toNat := toNat_byte (by omega)
    simp only [List.cons_append, List.nil_append, first?]
    rw [lead_of_lt (by omega), b₀, whole _ rfl]
  · have b₀ := toNat_byte (show c.toNat / 64 + 0xC0 < 0x100 by omega)
    have b₁ := toNat_byte (show c.toNat % 64 + 0x80 < 0x100 by omega)
    simp only [List.cons_append, List.nil_append, first?]
    rw [lead_two (by omega) (by omega)]
    simp only [Pending.finish?]
    rw [take_last (by omega) (by omega), b₀, b₁, whole _ (by omega)]
  · have b₀ := toNat_byte (show c.toNat / 4096 + 0xE0 < 0x100 by omega)
    have b₁ := toNat_byte (show c.toNat / 64 % 64 + 0x80 < 0x100 by omega)
    have b₂ := toNat_byte (show c.toNat % 64 + 0x80 < 0x100 by omega)
    simp only [List.cons_append, List.nil_append, first?]
    rw [lead_three (by omega) (by omega)]
    simp only [Pending.finish?]
    rw [take_more (by split <;> omega) (by split <;> omega)]
    simp only []
    rw [take_last (by omega) (by omega), b₀, b₁, b₂, whole _ (by omega)]
  · have b₀ := toNat_byte (show c.toNat / 262144 + 0xF0 < 0x100 by omega)
    have b₁ := toNat_byte (show c.toNat / 4096 % 64 + 0x80 < 0x100 by omega)
    have b₂ := toNat_byte (show c.toNat / 64 % 64 + 0x80 < 0x100 by omega)
    have b₃ := toNat_byte (show c.toNat % 64 + 0x80 < 0x100 by omega)
    simp only [List.cons_append, List.nil_append, first?]
    rw [lead_four (by omega) (by omega)]
    simp only [Pending.finish?]
    rw [take_more (by split <;> omega) (by split <;> omega)]
    simp only []
    rw [take_more (by omega) (by omega)]
    simp only []
    rw [take_last (by omega) (by omega), b₀, b₁, b₂, b₃, whole _ (by omega)]

/-- What finishes a sequence that lacks one byte. -/
theorem finish?_last {low high bits : Nat} {bs rest : List UInt8} {c : Char}
    (h : Pending.finish? ⟨0, low, high, bits⟩ bs = some (c, rest)) :
    ∃ b, bs = b :: rest ∧ low ≤ b.toNat ∧ b.toNat ≤ high ∧
      c = Char.ofNat (bits * 64 + (b.toNat - 0x80)) := by
  cases bs with
  | nil => simp [Pending.finish?] at h
  | cons b bs =>
    rw [Pending.finish?] at h
    by_cases range : low ≤ b.toNat ∧ b.toNat ≤ high
    · rw [take_last range.1 range.2] at h
      obtain ⟨rfl, rfl⟩ := Prod.mk.inj (Option.some.inj h)
      exact ⟨b, rfl, range.1, range.2, rfl⟩
    · rw [take_broken (by simp only []; omega)] at h
      cases h

/-- What finishes a sequence that lacks more bytes. -/
theorem finish?_more {more low high bits : Nat} {bs rest : List UInt8} {c : Char}
    (h : Pending.finish? ⟨more + 1, low, high, bits⟩ bs = some (c, rest)) :
    ∃ b bs', bs = b :: bs' ∧ low ≤ b.toNat ∧ b.toNat ≤ high ∧
      Pending.finish? ⟨more, 0x80, 0xBF, bits * 64 + (b.toNat - 0x80)⟩ bs' = some (c, rest) := by
  cases bs with
  | nil => simp [Pending.finish?] at h
  | cons b bs =>
    rw [Pending.finish?] at h
    by_cases range : low ≤ b.toNat ∧ b.toNat ≤ high
    · rw [take_more range.1 range.2] at h
      exact ⟨b, bs, rfl, range.1, range.2, h⟩
    · rw [take_broken (by simp only []; omega)] at h
      cases h

/-- A byte is the one built from its number. -/
theorem byte_eq {b : UInt8} {n : Nat} (h : b.toNat = n) : UInt8.ofNat n = b := by
  subst h
  exact UInt8.ofNat_toNat

/-- **A character is found only where its encoding starts.** -/
theorem encodeChar_first? {bs rest : List UInt8} {c : Char} (h : first? bs = some (c, rest)) :
    String.utf8EncodeChar c ++ rest = bs := by
  cases bs with
  | nil => simp at h
  | cons b bs =>
    have byte := b.toNat_lt
    rw [first?] at h
    by_cases one : b.toNat < 0x80
    · rw [lead_of_lt one] at h
      obtain ⟨rfl, rfl⟩ := Prod.mk.inj (Option.some.inj h)
      have n := toNat_ofNat (show b.toNat.isValidChar from Or.inl (by omega))
      rcases encodeChar_cases (Char.ofNat b.toNat) with ⟨-, e⟩ | ⟨l, -⟩ | ⟨l, -⟩ | ⟨l, -⟩
      · rw [e, n, byte_eq rfl]; rfl
      all_goals omega
    by_cases stray : b.toNat < 0xC2 ∨ 0xF5 ≤ b.toNat
    · rw [lead_stray (by omega) stray] at h
      cases h
    by_cases two : b.toNat < 0xE0
    · rw [lead_two (by omega) two] at h
      obtain ⟨b₁, rfl, l₁, h₁, hc⟩ := finish?_last h
      rw [hc]
      generalize hn : (b.toNat - 0xC0) * 64 + (b₁.toNat - 0x80) = n
      have e := toNat_ofNat (show n.isValidChar by simp only [Nat.isValidChar]; omega)
      rcases encodeChar_cases (Char.ofNat n) with
        ⟨u, -⟩ | ⟨-, -, w⟩ | ⟨l, -⟩ | ⟨l, -⟩
      · omega
      · rw [w, e, byte_eq (b := b) (by omega), byte_eq (b := b₁) (by omega)]; rfl
      all_goals omega
    by_cases three : b.toNat < 0xF0
    · rw [lead_three (by omega) three] at h
      obtain ⟨b₁, bs₁, rfl, l₁, h₁, h⟩ := finish?_more h
      obtain ⟨b₂, rfl, l₂, h₂, hc⟩ := finish?_last h
      rw [hc]
      have low : 0x80 ≤ b₁.toNat := by split at l₁ <;> omega
      have lowest : b.toNat = 0xE0 → 0xA0 ≤ b₁.toNat := fun hb => by rwa [if_pos hb] at l₁
      have high : b₁.toNat ≤ 0xBF := by split at h₁ <;> omega
      have surrogate : b.toNat = 0xED → b₁.toNat ≤ 0x9F := fun hb => by rwa [if_pos hb] at h₁
      generalize hn : ((b.toNat - 0xE0) * 64 + (b₁.toNat - 0x80)) * 64 + (b₂.toNat - 0x80) = n
      have e := toNat_ofNat (show n.isValidChar by simp only [Nat.isValidChar]; omega)
      rcases encodeChar_cases (Char.ofNat n) with
        ⟨u, -⟩ | ⟨-, u, -⟩ | ⟨-, -, w⟩ | ⟨l, -⟩
      · omega
      · omega
      · rw [w, e, byte_eq (b := b) (by omega), byte_eq (b := b₁) (by omega),
          byte_eq (b := b₂) (by omega)]
        rfl
      · omega
    · rw [lead_four (by omega) (by omega)] at h
      obtain ⟨b₁, bs₁, rfl, l₁, h₁, h⟩ := finish?_more h
      obtain ⟨b₂, bs₂, rfl, l₂, h₂, h⟩ := finish?_more h
      obtain ⟨b₃, rfl, l₃, h₃, hc⟩ := finish?_last h
      rw [hc]
      have low : 0x80 ≤ b₁.toNat := by split at l₁ <;> omega
      have lowest : b.toNat = 0xF0 → 0x90 ≤ b₁.toNat := fun hb => by rwa [if_pos hb] at l₁
      have high : b₁.toNat ≤ 0xBF := by split at h₁ <;> omega
      have highest : b.toNat = 0xF4 → b₁.toNat ≤ 0x8F := fun hb => by rwa [if_pos hb] at h₁
      generalize hn : (((b.toNat - 0xF0) * 64 + (b₁.toNat - 0x80)) * 64 + (b₂.toNat - 0x80)) * 64 +
        (b₃.toNat - 0x80) = n
      have e := toNat_ofNat (show n.isValidChar by simp only [Nat.isValidChar]; omega)
      rcases encodeChar_cases (Char.ofNat n) with
        ⟨u, -⟩ | ⟨-, u, -⟩ | ⟨-, u, -⟩ | ⟨-, -, w⟩
      · omega
      · omega
      · omega
      · rw [w, e, byte_eq (b := b) (by omega), byte_eq (b := b₁) (by omega),
          byte_eq (b := b₂) (by omega), byte_eq (b := b₃) (by omega)]
        rfl

/-- A character is found exactly where its encoding starts. -/
theorem first?_eq_some_iff {bs rest : List UInt8} {c : Char} :
    first? bs = some (c, rest) ↔ bs = String.utf8EncodeChar c ++ rest :=
  ⟨fun h => (encodeChar_first? h).symm, fun h => h ▸ first?_encodeChar c rest⟩

/-! ## Whole texts -/

/-- Between sequences, the decoder reads the encoding of a character as that character. -/
theorem foldl_step_encodeChar (text : String) (c : Char) :
    (String.utf8EncodeChar c).foldl Decoder.step ⟨text, none⟩ = ⟨text.push c, none⟩ := by
  have valid := isValidChar_toNat c
  simp only [Nat.isValidChar] at valid
  have whole : ∀ n, n = c.toNat → Char.ofNat n = c := fun n h => h ▸ Char.ofNat_toNat c
  rcases encodeChar_cases c with ⟨h, e⟩ | ⟨h, h', e⟩ | ⟨h, h', e⟩ | ⟨h, h', e⟩ <;>
    rw [e] <;> simp only [List.foldl_cons, List.foldl_nil, Decoder.step, Decoder.start]
  · have b₀ : (UInt8.ofNat c.toNat).toNat = c.toNat := toNat_byte (by omega)
    rw [lead_of_lt (by omega), b₀, whole _ rfl]
    rfl
  · have b₀ := toNat_byte (show c.toNat / 64 + 0xC0 < 0x100 by omega)
    have b₁ := toNat_byte (show c.toNat % 64 + 0x80 < 0x100 by omega)
    rw [lead_two (by omega) (by omega)]
    simp only []
    rw [take_last (by omega) (by omega), b₀, b₁, whole _ (by omega)]
    rfl
  · have b₀ := toNat_byte (show c.toNat / 4096 + 0xE0 < 0x100 by omega)
    have b₁ := toNat_byte (show c.toNat / 64 % 64 + 0x80 < 0x100 by omega)
    have b₂ := toNat_byte (show c.toNat % 64 + 0x80 < 0x100 by omega)
    rw [lead_three (by omega) (by omega)]
    simp only []
    rw [take_more (by split <;> omega) (by split <;> omega)]
    simp only []
    rw [take_last (by omega) (by omega), b₀, b₁, b₂, whole _ (by omega)]
    rfl
  · have b₀ := toNat_byte (show c.toNat / 262144 + 0xF0 < 0x100 by omega)
    have b₁ := toNat_byte (show c.toNat / 4096 % 64 + 0x80 < 0x100 by omega)
    have b₂ := toNat_byte (show c.toNat / 64 % 64 + 0x80 < 0x100 by omega)
    have b₃ := toNat_byte (show c.toNat % 64 + 0x80 < 0x100 by omega)
    rw [lead_four (by omega) (by omega)]
    simp only []
    rw [take_more (by split <;> omega) (by split <;> omega)]
    simp only []
    rw [take_more (by omega) (by omega)]
    simp only []
    rw [take_last (by omega) (by omega), b₀, b₁, b₂, b₃, whole _ (by omega)]
    rfl

/-- Between sequences, the decoder reads the encoding of a text as that text. -/
theorem foldl_step_encode (text : String) (cs : List Char) :
    (cs.flatMap String.utf8EncodeChar).foldl Decoder.step ⟨text, none⟩ =
      ⟨text ++ String.ofList cs, none⟩ := by
  induction cs generalizing text with
  | nil => simp
  | cons c cs ih =>
    rw [List.flatMap_cons, List.foldl_append, foldl_step_encodeChar, ih]
    congr 1
    apply String.toList_injective
    simp

/-- **Every text is read back** from its encoding. -/
theorem decode_encode (text : String) : decode (encode text) = text := by
  unfold decode encode
  rw [foldl_step_encode]
  simp [Decoder.finish]

/-- The bytes of a text are given back by reading and encoding them. -/
theorem encode_decode_of_eq {bytes : List UInt8} {text : String} (h : bytes = encode text) :
    encode (decode bytes) = bytes := by
  rw [h, decode_encode]

/-- Bytes below `0x80` encode the text of the characters of the same numbers. -/
theorem eq_encode_of_ascii {bytes : List UInt8} (h : ∀ b ∈ bytes, b.toNat < 0x80) :
    bytes = encode (String.ofList (bytes.map fun b => Char.ofNat b.toNat)) := by
  simp only [encode, String.toList_ofList]
  induction bytes with
  | nil => rfl
  | cons b bytes ih =>
    have small := h b List.mem_cons_self
    have n : (Char.ofNat b.toNat).toNat = b.toNat := toNat_ofNat (Or.inl (by omega))
    have first : String.utf8EncodeChar (Char.ofNat b.toNat) = [b] := by
      rcases encodeChar_cases (Char.ofNat b.toNat) with ⟨-, e⟩ | ⟨l, -⟩ | ⟨l, -⟩ | ⟨l, -⟩
      · rw [e, n, byte_eq rfl]
      all_goals omega
    rw [List.map_cons, List.flatMap_cons, first, ← ih fun c hc => h c (List.mem_cons_of_mem _ hc)]
    rfl

/-- Bytes below `0x80` are given back by reading and encoding them. -/
theorem encode_decode_of_ascii {bytes : List UInt8} (h : ∀ b ∈ bytes, b.toNat < 0x80) :
    encode (decode bytes) = bytes :=
  encode_decode_of_eq (eq_encode_of_ascii h)

end LoxSyntax.Utf8
