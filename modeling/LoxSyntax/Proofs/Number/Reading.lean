import LoxSyntax.Proofs.Number.Characters
import LoxSyntax.Proofs.Number.Shortest

/-! # Number texts read back
What decimal a number text denotes is told here by a reader of such texts, with or without an
exponent. The two ways to write a decimal denote it, up to a shift of its point, and the JSON text
of a finite double denotes a decimal that has that double. So no two finite doubles share a JSON
text. -/

namespace LoxSyntax

/-! ## (1) Texts up to a mark -/

/-- What stands before the first of a mark. -/
def upTo (mark : Char) (text : List Char) : List Char := text.takeWhile (· ≠ mark)

/-- What stands after the first of a mark. -/
def past (mark : Char) (text : List Char) : List Char := (text.dropWhile (· ≠ mark)).drop 1

section Marks

variable {mark : Char} {text : List Char}

theorem ne_of_free (free : mark ∉ text) : ∀ c ∈ text, decide (c ≠ mark) = true := by
  intro c member
  exact decide_eq_true fun same => free (same ▸ member)

theorem upTo_mark (free : mark ∉ text) (rest : List Char) :
    upTo mark (text ++ mark :: rest) = text := by
  rw [upTo, List.takeWhile_append_of_pos (ne_of_free free)]
  simp

theorem past_mark (free : mark ∉ text) (rest : List Char) :
    past mark (text ++ mark :: rest) = rest := by
  rw [past, List.dropWhile_append_of_pos (ne_of_free free)]
  simp

theorem upTo_free (free : mark ∉ text) : upTo mark text = text := by
  have whole : (text ++ []).takeWhile (· ≠ mark) = text ++ [] :=
    List.takeWhile_append_of_pos (ne_of_free free)
  rwa [List.append_nil] at whole

theorem past_free (free : mark ∉ text) : past mark text = [] := by
  have nothing : (text ++ []).dropWhile (· ≠ mark) = [] :=
    List.dropWhile_append_of_pos (ne_of_free free)
  rw [List.append_nil] at nothing
  rw [past, nothing]
  rfl

/-- A mark that is no digit is in no digits. -/
theorem free_of_digits (digits : ∀ c ∈ text, c.isDigit = true) (other : mark.isDigit = false) :
    mark ∉ text := by
  intro member
  rw [digits mark member] at other
  cases other

/-- **Texts up to a mark** that they do not hold are told by what there is. -/
theorem append_mark_inj {other r u : List Char} (free : mark ∉ text) (otherFree : mark ∉ other)
    (same : text ++ mark :: r = other ++ mark :: u) : text = other ∧ r = u := by
  have before := congrArg (upTo mark) same
  have after := congrArg (past mark) same
  rw [upTo_mark free, upTo_mark otherFree] at before
  rw [past_mark free, past_mark otherFree] at after
  exact ⟨before, after⟩

end Marks

namespace Decimal

/-! ## (2) Digits -/

theorem ofDigits_eq (digits : List Char) : ofDigits digits = Nat.ofDigitChars 10 digits 0 := by
  simp only [ofDigits, Nat.ofDigitChars, Nat.mul_comm]

/-- The digits of a decimal denote its coefficient. -/
@[simp] theorem ofDigits_digits (d : Decimal) : ofDigits d.digits = d.coefficient := by
  rw [ofDigits_eq]
  exact Nat.ofDigitChars_toDigits (by decide) (by decide)

/-- Zeros in front change nothing. -/
theorem ofDigits_zeros_append (k : Nat) (digits : List Char) :
    ofDigits (List.replicate k '0' ++ digits) = ofDigits digits := by
  induction k with
  | zero => rfl
  | succ k ih => exact ih

/-- Each zero at the end is a power of ten. -/
theorem ofDigits_append_zeros (digits : List Char) (k : Nat) :
    ofDigits (digits ++ List.replicate k '0') = ofDigits digits * 10 ^ k := by
  induction k with
  | zero => rw [List.replicate_zero, List.append_nil, Nat.pow_zero, Nat.mul_one]
  | succ k ih =>
    rw [List.replicate_succ', ← List.append_assoc, Nat.pow_succ, ← Nat.mul_assoc, ← ih]
    exact List.foldl_append

/-- A zero at the end and a step down of the exponent make up for each other. -/
theorem toBinary64_shift (c : Nat) (e : Int) (k : Nat) :
    toBinary64 ⟨c * 10 ^ k, e - k⟩ = toBinary64 ⟨c, e⟩ := by
  have shifted : e - k = (e.toNat : Int) - ((-e).toNat + k : Nat) := by omega
  have plain : e = (e.toNat + k : Nat) - ((-e).toNat + k : Nat) := by omega
  rw [toBinary64_eq (d := ⟨c * 10 ^ k, e - k⟩) shifted, toBinary64_eq (d := ⟨c, e⟩) plain]
  simp only [Nat.pow_add, Nat.mul_assoc, Nat.mul_comm (10 ^ k)]

/-! ## (3) The decimal that a text denotes -/

/-- What stands after the mark of an exponent: a sign and digits. -/
def signed : List Char → Int
  | '-' :: digits => -ofDigits digits
  | text => ofDigits (text.drop 1)

/-- **The decimal that a number text denotes.** Each digit after the point takes one off the
exponent. -/
def ofText (text : List Char) : Decimal :=
  let mantissa := upTo 'e' text
  let fraction := past '.' mantissa
  ⟨ofDigits (upTo '.' mantissa ++ fraction), signed (past 'e' text) - fraction.length⟩

/-- Digits alone denote a whole number. -/
theorem ofText_whole {whole : List Char} (digits : ∀ c ∈ whole, c.isDigit = true) :
    ofText whole = ⟨ofDigits whole, 0⟩ := by
  have e : 'e' ∉ whole := free_of_digits digits rfl
  have point : '.' ∉ whole := free_of_digits digits rfl
  simp only [ofText, upTo_free e, past_free e, upTo_free point, past_free point, List.append_nil]
  rfl

/-- Digits on both sides of a point. -/
theorem ofText_pointed {whole fraction : List Char} (before : ∀ c ∈ whole, c.isDigit = true)
    (after : ∀ c ∈ fraction, c.isDigit = true) :
    ofText (whole ++ '.' :: fraction) = ⟨ofDigits (whole ++ fraction), -fraction.length⟩ := by
  have e : 'e' ∉ whole ++ '.' :: fraction := by
    simp only [List.mem_append, List.mem_cons, not_or]
    exact ⟨free_of_digits before rfl, by decide, free_of_digits after rfl⟩
  have point : '.' ∉ whole := free_of_digits before rfl
  have none : signed [] = 0 := rfl
  simp only [ofText, upTo_free e, past_free e, upTo_mark point, past_mark point, none]
  rw [Int.zero_sub]

/-- An exponent moves the point. -/
theorem ofText_exponent {mantissa : List Char} (e : 'e' ∉ mantissa) (power : List Char) :
    ofText (mantissa ++ 'e' :: power) =
      ⟨(ofText mantissa).coefficient, (ofText mantissa).exponent + signed power⟩ := by
  have none : signed [] = 0 := rfl
  simp only [ofText, upTo_free e, past_free e, upTo_mark e, past_mark e, none]
  congr 1
  omega

/-! ## (4) The texts of a decimal -/

/-- **Positional text denotes its decimal**, up to a shift of the point. -/
theorem toBinary64_ofText_positional (d : Decimal) :
    (ofText d.positional).toBinary64 = d.toBinary64 := by
  obtain ⟨whole, fraction, j, k, text, -, padded, places⟩ := d.exists_positional
  have digits : ∀ c ∈ whole ++ fraction, c.isDigit = true := by
    rw [padded]
    exact fun c => isDigit_of_mem_padded
  obtain ⟨before, after⟩ := List.forall_mem_append.mp digits
  rw [text, ofText_pointed before after, padded, ofDigits_append_zeros, ofDigits_zeros_append,
    ofDigits_digits, places]
  exact toBinary64_shift ..

/-- The sign and the digits of a whole number denote it. -/
theorem signed_toDigits (p : Int) :
    signed ((if p < 0 then '-' else '+') :: Nat.toDigits 10 p.natAbs) = p := by
  have size : (ofDigits (Nat.toDigits 10 p.natAbs) : Int) = p.natAbs :=
    congrArg _ (ofDigits_digits ⟨p.natAbs, 0⟩)
  split
  · simp only [signed, size]
    omega
  · change (ofDigits (Nat.toDigits 10 p.natAbs) : Int) = p
    rw [size]
    omega

/-- The mantissa denotes the digits with the point after the first of them. -/
theorem ofText_mantissa (d : Decimal) :
    ofText d.mantissa = ⟨d.coefficient, -(d.digits.drop 1).length⟩ := by
  have first : ∀ c ∈ d.digits.take 1, c.isDigit = true :=
    fun c member => isDigit_of_mem_digits (List.mem_of_mem_take member)
  have others : ∀ c ∈ d.digits.drop 1, c.isDigit = true :=
    fun c member => isDigit_of_mem_digits (List.mem_of_mem_drop member)
  unfold mantissa
  split
  case isTrue none =>
    rw [List.isEmpty_iff] at none
    have all : d.digits.take 1 = d.digits := by
      simpa [none] using List.take_append_drop 1 d.digits
    rw [List.append_nil, ofText_whole first, all, ofDigits_digits, none]
    rfl
  case isFalse =>
    rw [ofText_pointed first others, List.take_append_drop, ofDigits_digits]

theorem e_notMem_mantissa (d : Decimal) : 'e' ∉ d.mantissa := by
  intro member
  rcases mem_mantissa member with digit | point
  · cases digit
  · cases point

/-- **Exponent text denotes its decimal.** -/
theorem ofText_scientific (d : Decimal) : ofText d.scientific = d := by
  rw [scientific_eq, ofText_exponent d.e_notMem_mantissa, ofText_mantissa, signed_toDigits]
  cases d with
  | mk coefficient exponent =>
    congr 1
    simp only [power, List.length_drop]
    omega

end Decimal

/-! ## (5) The JSON text of a double -/

namespace Binary64

/-- **The JSON text of a finite double reads back**, but for the sign in front of it. -/
theorem magnitude_ofText_jsonMagnitude {x : Binary64} (finite : x.isFinite = true) :
    (Decimal.ofText x.jsonMagnitude).toBinary64.magnitude = x.magnitude := by
  have small : x.magnitude < infinite := of_decide_eq_true finite
  unfold jsonMagnitude
  split
  case isTrue zero =>
    have text : (Decimal.ofText ['0', '.', '0']).toBinary64 = nearest 0 10 := rfl
    rw [text, zero, magnitude_nearest]
    exact nearestMagnitude_eq (m := 0) (by decide) (by simp) (by simp)
  case isFalse =>
    have reads := magnitude_shortest .even small
    dsimp only
    split
    · rw [Decimal.toBinary64_ofText_positional]
      exact reads
    · rw [Decimal.ofText_scientific]
      exact reads

/-- A text that has digits in front starts with one. -/
theorem exists_digit {digits : List Char} (nonempty : digits ≠ [])
    (all : ∀ c ∈ digits, c.isDigit = true) (rest : List Char) :
    ∃ c more, digits ++ rest = c :: more ∧ c.isDigit = true := by
  cases digits with
  | nil => exact absurd rfl nonempty
  | cons c digits => exact ⟨c, digits ++ rest, rfl, all c List.mem_cons_self⟩

/-- The JSON text of a magnitude starts with a digit. -/
theorem exists_digit_jsonMagnitude (x : Binary64) :
    ∃ c more, x.jsonMagnitude = c :: more ∧ c.isDigit = true := by
  unfold jsonMagnitude
  split
  · exact ⟨'0', ['.', '0'], rfl, rfl⟩
  generalize shortest .even x.magnitude = d
  dsimp only
  split
  · obtain ⟨whole, fraction, j, k, text, some, padded, -⟩ := d.exists_positional
    rw [text]
    refine exists_digit some (fun c member => ?_) _
    have inside : c ∈ whole ++ fraction := List.mem_append_left _ member
    rw [padded] at inside
    exact Decimal.isDigit_of_mem_padded inside
  · have some : d.digits.take 1 ≠ [] := by simpa using d.digits_ne_nil
    rw [Decimal.scientific_eq, Decimal.mantissa, List.append_assoc]
    exact exists_digit some
      (fun c member => Decimal.isDigit_of_mem_digits (List.mem_of_mem_take member)) _

/-- A finite number starts with a digit or a minus. -/
theorem exists_head_json {x : Binary64} (finite : x.isFinite = true) :
    ∃ c more, x.json.toList = c :: more ∧ (c.isDigit = true ∨ c = '-') := by
  obtain ⟨c, more, text, digit⟩ := exists_digit_jsonMagnitude x
  rw [json, if_pos finite, String.toList_ofList, text, signText]
  split
  · exact ⟨'-', c :: more, rfl, .inr rfl⟩
  · exact ⟨c, more, rfl, .inl digit⟩

/-- A double is its sign and its magnitude. -/
theorem eq_of_magnitude {x y : Binary64} (sign : x.isNegative = y.isNegative)
    (magnitude : x.magnitude = y.magnitude) : x = y := by
  have bits : x.bits = y.bits := by
    rw [← UInt64.toNat_inj]
    have := x.bits.toNat_lt
    have := y.bits.toNat_lt
    simp only [isNegative, Binary64.magnitude, signBit, decide_eq_decide] at sign magnitude
    omega
  cases x with
  | mk x =>
    cases y with
    | mk y => exact congrArg mk bits

/-- A sign in front of what starts with no minus is told by the text. -/
theorem signText_append_inj {x y : Binary64} {r u : List Char} (rest : '-' ∉ r.head?)
    (rest' : '-' ∉ u.head?) (same : x.signText ++ r = y.signText ++ u) :
    x.isNegative = y.isNegative ∧ r = u := by
  have unsigned {more text : List Char} (starts : '-' ∉ text.head?) : text ≠ '-' :: more := by
    rintro rfl
    exact starts rfl
  unfold signText at same
  cases xSign : x.isNegative <;> cases ySign : y.isNegative <;> simp only [xSign, ySign] at same
  · exact ⟨rfl, same⟩
  · exact absurd same (unsigned rest)
  · exact absurd same.symm (unsigned rest')
  · exact ⟨rfl, (List.cons.inj same).2⟩

/-- **No two finite doubles share a JSON text.** -/
theorem json_inj {x y : Binary64} (xFinite : x.isFinite = true) (yFinite : y.isFinite = true)
    (same : x.json = y.json) : x = y := by
  simp only [json, xFinite, yFinite, if_true, String.ofList_inj] at same
  have unsigned (z : Binary64) : '-' ∉ z.jsonMagnitude.head? := by
    obtain ⟨c, more, started, digit⟩ := exists_digit_jsonMagnitude z
    rw [started]
    rintro ⟨⟩
    cases digit
  obtain ⟨sign, text⟩ := signText_append_inj (unsigned x) (unsigned y) same
  refine eq_of_magnitude sign ?_
  rw [← magnitude_ofText_jsonMagnitude xFinite, text, magnitude_ofText_jsonMagnitude yFinite]

end Binary64

end LoxSyntax
