import LoxSyntax.Number.Text

/-! # Characters of number texts
How the texts of a decimal are put together, and which characters the texts of a number are made of:
digits and a point, and around them a sign, the mark of an exponent or a word for what has no
digits. -/

namespace LoxSyntax

namespace Decimal

/-- The digits of a decimal are digits. -/
theorem isDigit_of_mem_digits {d : Decimal} {c : Char} (member : c ∈ d.digits) :
    c.isDigit = true :=
  Nat.isDigit_of_mem_toDigits (by decide) (by decide) member

theorem digits_ne_nil (d : Decimal) : d.digits ≠ [] := Nat.toDigits_ne_nil

/-- The digits of a decimal with zeros around them are digits. -/
theorem isDigit_of_mem_padded {d : Decimal} {j k : Nat} {c : Char}
    (member : c ∈ List.replicate j '0' ++ d.digits ++ List.replicate k '0') : c.isDigit = true := by
  simp only [List.mem_append, List.mem_replicate] at member
  obtain (⟨-, rfl⟩ | inside) | ⟨-, rfl⟩ := member
  · rfl
  · exact isDigit_of_mem_digits inside
  · rfl

/-- **Positional text** is digits on both sides of a point, some of them before it, which are those
of the decimal with zeros in front or at the end; the point stands where the exponent and the zeros
at the end have it. -/
theorem exists_positional (d : Decimal) : ∃ whole fraction j k,
    d.positional = whole ++ '.' :: fraction ∧ whole ≠ [] ∧
      whole ++ fraction = List.replicate j '0' ++ d.digits ++ List.replicate k '0' ∧
      -(fraction.length : Int) = d.exponent - (k : Nat) := by
  unfold positional
  split
  case isTrue negative =>
    have some := List.length_pos_iff.mpr d.digits_ne_nil
    simp only [withPoint]
    refine ⟨_, _, (-d.exponent).toNat + 1 - d.digits.length, 0, rfl, ?_, ?_, ?_⟩
    · rw [← List.length_pos_iff]
      simp only [List.length_take, List.length_append, List.length_replicate]
      omega
    · rw [List.take_append_drop, List.replicate_zero, List.append_nil]
    · simp only [List.length_drop, List.length_append, List.length_replicate]
      omega
  case isFalse whole =>
    refine ⟨d.digits ++ List.replicate d.exponent.toNat '0', ['0'], 0, d.exponent.toNat + 1, rfl,
      ?_, ?_, ?_⟩
    · exact List.append_ne_nil_of_left_ne_nil d.digits_ne_nil _
    · rw [List.replicate_succ', List.append_assoc, List.append_assoc]
      rfl
    · rw [List.length_singleton]
      omega

/-- A positional text holds digits and a point. -/
theorem mem_positional {d : Decimal} {c : Char} (member : c ∈ d.positional) :
    c.isDigit = true ∨ c = '.' := by
  obtain ⟨whole, fraction, j, k, text, -, padded, -⟩ := d.exists_positional
  have digits {c : Char} (inside : c ∈ whole ++ fraction) : c.isDigit = true :=
    isDigit_of_mem_padded (padded ▸ inside)
  rw [text, List.mem_append, List.mem_cons] at member
  obtain before | point | after := member
  · exact .inl (digits (List.mem_append_left _ before))
  · exact .inr point
  · exact .inl (digits (List.mem_append_right _ after))

/-- What stands before the mark of the exponent. -/
def mantissa (d : Decimal) : List Char :=
  d.digits.take 1 ++ if (d.digits.drop 1).isEmpty then [] else '.' :: d.digits.drop 1

theorem scientific_eq (d : Decimal) :
    d.scientific = d.mantissa ++
      'e' :: (if d.power < 0 then '-' else '+') :: Nat.toDigits 10 d.power.natAbs := by
  simp only [scientific, mantissa, List.append_assoc, List.cons_append, List.nil_append]

/-- A mantissa holds digits and a point. -/
theorem mem_mantissa {d : Decimal} {c : Char} (member : c ∈ d.mantissa) :
    c.isDigit = true ∨ c = '.' := by
  rcases List.mem_append.mp member with first | others
  · exact .inl (isDigit_of_mem_digits (List.mem_of_mem_take first))
  · split at others
    · cases others
    · rcases List.mem_cons.mp others with point | others
      · exact .inr point
      · exact .inl (isDigit_of_mem_digits (List.mem_of_mem_drop others))

/-- An exponent text holds digits and a point, and the mark and the sign of the exponent. -/
theorem mem_scientific {d : Decimal} {c : Char} (member : c ∈ d.scientific) :
    c.isDigit = true ∨ c = '.' ∨ c = 'e' ∨ c = '-' ∨ c = '+' := by
  rw [scientific_eq, List.mem_append, List.mem_cons, List.mem_cons] at member
  obtain mantissa | mark | sign | power := member
  · exact (mem_mantissa mantissa).imp_right .inl
  · exact .inr (.inr (.inl mark))
  · split at sign
    · exact .inr (.inr (.inr (.inl sign)))
    · exact .inr (.inr (.inr (.inr sign)))
  · exact .inl (Nat.isDigit_of_mem_toDigits (by decide) (by decide) power)

end Decimal

namespace Binary64

/-- A sign is a minus. -/
theorem mem_signText {x : Binary64} {c : Char} (member : c ∈ x.signText) : c = '-' := by
  unfold signText at member
  split at member
  · exact List.mem_singleton.mp member
  · cases member

/-- **The plain text of a double** holds digits, a point and a minus sign, or a word for what is no
finite number. -/
theorem mem_plain {x : Binary64} {c : Char} (member : c ∈ x.plain.toList) :
    c.isDigit = true ∨ c ∈ ['.', '-', 'N', 'a', 'i', 'n', 'f'] := by
  unfold plain at member
  split at member
  · have letters : ∀ c ∈ "NaN".toList, c ∈ ['.', '-', 'N', 'a', 'i', 'n', 'f'] := by simp
    exact .inr (letters c member)
  split at member
  · rw [String.toList_ofList, List.mem_append] at member
    rcases member with sign | magnitude
    · rw [mem_signText sign]
      exact .inr (by decide)
    unfold plainMagnitude at magnitude
    split at magnitude
    · rcases List.mem_append.mp magnitude with whole | fraction
      · exact .inl (Nat.isDigit_of_mem_toDigits (by decide) (by decide) whole)
      · obtain rfl | rfl : c = '.' ∨ c = '0' := by simpa using fraction
        · exact .inr (by decide)
        · exact .inl rfl
    · rcases Decimal.mem_positional magnitude with digit | rfl
      · exact .inl digit
      · exact .inr (by decide)
  · rw [String.toList_ofList, List.mem_append] at member
    rcases member with sign | word
    · rw [mem_signText sign]
      exact .inr (by decide)
    · have letters : ∀ c ∈ ['i', 'n', 'f'], c ∈ ['.', '-', 'N', 'a', 'i', 'n', 'f'] := by simp
      exact .inr (letters c word)

/-- **The JSON text of a double** holds digits, a point, the mark of an exponent and signs, or it is
the word for what is no finite number. -/
theorem mem_json {x : Binary64} {c : Char} (member : c ∈ x.json.toList) :
    c.isDigit = true ∨ c ∈ ['.', 'e', '-', '+', 'n', 'u', 'l'] := by
  unfold json at member
  split at member
  · rw [String.toList_ofList, List.mem_append] at member
    rcases member with sign | magnitude
    · rw [mem_signText sign]
      exact .inr (by decide)
    unfold jsonMagnitude at magnitude
    split at magnitude
    · have zero : ∀ c ∈ ['0', '.', '0'],
          c.isDigit = true ∨ c ∈ ['.', 'e', '-', '+', 'n', 'u', 'l'] := by simp
      exact zero c magnitude
    dsimp only at magnitude
    split at magnitude
    · rcases Decimal.mem_positional magnitude with digit | rfl
      · exact .inl digit
      · exact .inr (by decide)
    · rcases Decimal.mem_scientific magnitude with digit | rfl | rfl | rfl | rfl
      · exact .inl digit
      all_goals exact .inr (by decide)
  · have letters : ∀ c ∈ "null".toList, c ∈ ['.', 'e', '-', '+', 'n', 'u', 'l'] := by simp
    exact .inr (letters c member)

end Binary64

end LoxSyntax
