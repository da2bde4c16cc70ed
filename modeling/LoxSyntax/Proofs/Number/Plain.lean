import LoxSyntax.Proofs.Number.Reading

/-! # Plain number texts
The plain text of a finite double is a numeral with one point, after a minus if the sign bit is set,
and the decimal that it denotes has the double. So no two doubles share a plain text, save for those
that are not a number, which all do.

1. *The text of a magnitude*: digits around a point.
2. *Signs and words*: the texts of all doubles. -/

namespace LoxSyntax

namespace Binary64

/-! ## (1) The text of a magnitude -/

/-- **The plain text of a magnitude** is digits on both sides of a point, some of them before it. -/
theorem exists_plainMagnitude (x : Binary64) : ∃ whole fraction,
    x.plainMagnitude = whole ++ '.' :: fraction ∧ whole ≠ [] ∧
      (∀ c ∈ whole, c.isDigit = true) ∧ ∀ c ∈ fraction, c.isDigit = true := by
  unfold plainMagnitude
  split
  · exact ⟨_, ['0'], rfl, Nat.toDigits_ne_nil,
      fun c => Nat.isDigit_of_mem_toDigits (by decide) (by decide), by simp⟩
  · obtain ⟨whole, fraction, j, k, text, some, padded, -⟩ :=
      (shortest .up x.magnitude).exists_positional
    have digits : ∀ c ∈ whole ++ fraction, c.isDigit = true := by
      rw [padded]
      exact fun c => Decimal.isDigit_of_mem_padded
    obtain ⟨before, after⟩ := List.forall_mem_append.mp digits
    exact ⟨whole, fraction, text, some, before, after⟩

/-- A whole number with a zero after the point denotes itself. -/
theorem toBinary64_ofText_whole (n : Nat) :
    (Decimal.ofText (Nat.toDigits 10 n ++ ['.', '0'])).toBinary64 = nearest n 1 := by
  have digits : ∀ c ∈ Nat.toDigits 10 n, c.isDigit = true :=
    fun c => Nat.isDigit_of_mem_toDigits (by decide) (by decide)
  have zero : ∀ c ∈ ['0'], c.isDigit = true := by simp
  have value : Decimal.ofDigits (Nat.toDigits 10 n ++ ['0']) = n * 10 ^ 1 :=
    (Decimal.ofDigits_append_zeros _ 1).trans
      (congrArg (· * 10 ^ 1) (Decimal.ofDigits_digits ⟨n, 0⟩))
  have down : (-(['0'] : List Char).length : Int) = 0 - (1 : Nat) := rfl
  have unit : (⟨n, 0⟩ : Decimal).exponent = (0 : Nat) - (0 : Nat) := rfl
  rw [Decimal.ofText_pointed digits zero, value, down, Decimal.toBinary64_shift n 0 1,
    Decimal.toBinary64_eq unit, Nat.pow_zero, Nat.mul_one]

/-- **The plain text of a finite double reads back**, but for the sign in front of it. -/
theorem magnitude_ofText_plainMagnitude {x : Binary64} (finite : x.isFinite = true) :
    (Decimal.ofText x.plainMagnitude).toBinary64.magnitude = x.magnitude := by
  have small : x.magnitude < infinite := of_decide_eq_true finite
  unfold plainMagnitude
  split
  case isTrue whole =>
    -- The value is a whole number of ones, so the fraction is the double itself.
    have exact : x.units / unitsPerOne * unitsPerOne = x.units :=
      Nat.div_mul_cancel (Nat.dvd_of_mod_eq_zero whole)
    rw [toBinary64_ofText_whole, magnitude_nearest]
    refine nearestMagnitude_eq small ?_ ?_
    · rw [exact, Nat.mul_one]
      exact Nat.le_refl _
    · rw [exact, Nat.mul_one]
      exact Nat.lt_succ_self _
  case isFalse =>
    rw [Decimal.toBinary64_ofText_positional]
    exact magnitude_shortest .up small

/-! ## (2) Signs and words -/

/-- What stands after the sign in the plain text of a number. -/
def plainBody (x : Binary64) : List Char :=
  if x.isFinite then x.plainMagnitude else ['i', 'n', 'f']

/-- What is finite is a number. -/
theorem isNaN_of_isFinite {x : Binary64} (finite : x.isFinite = true) : x.isNaN = false := by
  simp only [isNaN, isFinite, decide_eq_false_iff_not, decide_eq_true_eq] at finite ⊢
  omega

theorem toList_plain {x : Binary64} (number : x.isNaN = false) :
    x.plain.toList = x.signText ++ x.plainBody := by
  rw [plain, number, if_neg Bool.false_ne_true, plainBody]
  by_cases finite : x.isFinite = true
  · rw [if_pos finite, if_pos finite, String.toList_ofList]
  · rw [if_neg finite, if_neg finite, String.toList_ofList]

/-- A number starts with a digit or with a word, after its sign. -/
theorem exists_head_plainBody (x : Binary64) :
    ∃ c more, x.plainBody = c :: more ∧ (c.isDigit = true ∧ x.isFinite = true ∨
      c = 'i' ∧ x.isFinite = false) := by
  rw [plainBody]
  by_cases finite : x.isFinite = true
  · obtain ⟨whole, fraction, text, some, before, -⟩ := x.exists_plainMagnitude
    obtain ⟨c, more, started, digit⟩ := exists_digit some before ('.' :: fraction)
    rw [if_pos finite, text, started]
    exact ⟨c, more, rfl, .inl ⟨digit, finite⟩⟩
  · rw [if_neg finite]
    exact ⟨'i', ['n', 'f'], rfl, .inr ⟨rfl, Bool.eq_false_iff.mpr finite⟩⟩

/-- No number starts with a minus after its sign. -/
theorem minus_notMem_head_plainBody (x : Binary64) : '-' ∉ x.plainBody.head? := by
  obtain ⟨c, more, text, first⟩ := x.exists_head_plainBody
  rw [text]
  rintro ⟨⟩
  rcases first with ⟨digit, -⟩ | ⟨word, -⟩
  · cases digit
  · cases word

/-- A number starts with a digit, a minus or the word for infinity. -/
theorem exists_head_plain {x : Binary64} (number : x.isNaN = false) :
    ∃ c more, x.plain.toList = c :: more ∧ (c.isDigit = true ∨ c = '-' ∨ c = 'i') := by
  obtain ⟨c, more, text, first⟩ := x.exists_head_plainBody
  rw [toList_plain number, text, signText]
  split
  · exact ⟨'-', c :: more, rfl, .inr (.inl rfl)⟩
  · refine ⟨c, more, rfl, ?_⟩
    rcases first with ⟨digit, -⟩ | ⟨word, -⟩
    · exact .inl digit
    · exact .inr (.inr word)

/-- What is neither finite nor not a number is infinite. -/
theorem magnitude_of_infinite {x : Binary64} (number : x.isNaN = false)
    (infinite : x.isFinite = false) : x.magnitude = Binary64.infinite := by
  simp only [isNaN, isFinite, decide_eq_false_iff_not] at number infinite
  omega

/-- **No two doubles share a plain text**, save for those that are not a number. -/
theorem plain_inj {x y : Binary64} (xNumber : x.isNaN = false) (yNumber : y.isNaN = false)
    (same : x.plain = y.plain) : x = y := by
  have texts := congrArg String.toList same
  rw [toList_plain xNumber, toList_plain yNumber] at texts
  obtain ⟨sign, body⟩ := signText_append_inj x.minus_notMem_head_plainBody
    y.minus_notMem_head_plainBody texts
  refine eq_of_magnitude sign ?_
  obtain ⟨c, more, xText, xFirst⟩ := x.exists_head_plainBody
  obtain ⟨d, rest, yText, yFirst⟩ := y.exists_head_plainBody
  obtain rfl : c = d := by
    rw [xText, yText] at body
    exact List.head_eq_of_cons_eq body
  rcases xFirst with ⟨digit, xFinite⟩ | ⟨rfl, xInfinite⟩ <;>
    rcases yFirst with ⟨digit', yFinite⟩ | ⟨word, yInfinite⟩
  · rw [plainBody, plainBody, if_pos xFinite, if_pos yFinite] at body
    rw [← magnitude_ofText_plainMagnitude xFinite, body, magnitude_ofText_plainMagnitude yFinite]
  · subst word
    cases digit
  · cases digit'
  · rw [magnitude_of_infinite xNumber xInfinite, magnitude_of_infinite yNumber yInfinite]

end Binary64

end LoxSyntax
