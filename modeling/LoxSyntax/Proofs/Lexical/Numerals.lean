import LoxSyntax.Proofs.Lexical.Spaced
import LoxSyntax.Proofs.Number.Rounding
import LoxSyntax.Proofs.Text.Decoding

/-! # Numerals in a source
A numeral is a digit and the digits and dots after it. With at most one dot it denotes a rational
number, and its token has the double nearest to that number; with more dots it denotes none, and its
token has zero. The plain text of a double without a sign is a numeral that denotes it, so it is
scanned back to that double.

1. *Values*: the number that a numeral denotes, and the double it is read as.
2. *Bytes*: numerals as they stand in a source.
3. *Tokens*: the value of a numeral among the items of a source.
4. *Plain texts*: numbers scanned back from what is written for them. -/

namespace LoxSyntax

/-! ## (1) Values -/

/-- A **numeral**: a digit, and digits and dots after it. -/
def IsNumeral (text : List Char) : Prop :=
  ∃ c rest, text = c :: rest ∧ c.isDigit = true ∧ ∀ d ∈ rest, d.isDigit = true ∨ d = '.'

/-- The number of dots. -/
def dots (text : List Char) : Nat := text.count '.'

/-- **The number that a numeral denotes**, if it has at most one dot: that of the digits before the
dot, and that of the digits after it as a decimal fraction. -/
def numeralRat (text : List Char) : ℚ :=
  Nat.ofDigitChars 10 (upTo '.' text) 0 +
    Nat.ofDigitChars 10 (past '.' text) 0 / 10 ^ (past '.' text).length

/-- A second dot is one after the first. -/
theorem dot_mem_past_iff (text : List Char) : '.' ∈ past '.' text ↔ 2 ≤ dots text := by
  by_cases dotted : '.' ∈ text
  · obtain ⟨whole, fraction, rfl, free⟩ := List.eq_append_cons_of_mem dotted
    rw [past_mark free, dots, List.count_append, List.count_eq_zero_of_not_mem free,
      List.count_cons_self, ← List.count_pos_iff]
    omega
  · rw [past_free dotted, dots, List.count_eq_zero_of_not_mem dotted]
    simp

/-- A numeral with more than one dot is read as zero. -/
theorem numeralValue_of_dots {text : List Char} (many : 2 ≤ dots text) :
    numeralValue text = .ofMagnitude 0 :=
  if_pos (List.contains_iff_mem.mpr ((dot_mem_past_iff text).mpr many))

/-- A numeral with at most one dot is read as the double of the fraction of its digits. -/
theorem numeralValue_eq_toBinary64 {text : List Char} (few : dots text ≤ 1) :
    numeralValue text = Decimal.toBinary64
      ⟨Decimal.ofDigits (upTo '.' text ++ past '.' text), -(past '.' text).length⟩ := by
  refine if_neg fun found => ?_
  have many := (dot_mem_past_iff text).mp (List.contains_iff_mem.mp found)
  omega

/-- **What a numeral is read as**: the double nearest to a fraction that is the number it denotes.
-/
theorem exists_nearest_numeral {text : List Char} (few : dots text ≤ 1) :
    ∃ num den : Nat, 0 < den ∧ numeralRat text = num / den ∧
      numeralValue text = .nearest num den := by
  have positive : 0 < 10 ^ (past '.' text).length := Nat.pow_pos (by decide)
  refine ⟨Decimal.ofDigits (upTo '.' text ++ past '.' text), _, positive, ?_, ?_⟩
  · have unit : (10 : ℚ) ^ (past '.' text).length ≠ 0 := pow_ne_zero _ (by decide)
    rw [Decimal.ofDigits_eq, Nat.ofDigitChars_append, Nat.ofDigitChars_eq_ofDigitChars_zero,
      Nat.cast_add, Nat.cast_mul, Nat.cast_pow, Nat.cast_ofNat, add_div,
      mul_div_cancel_left₀ _ unit]
    rfl
  · have down : -((past '.' text).length : Int) = (0 : Nat) - ((past '.' text).length : Nat) := by
      omega
    rw [numeralValue_eq_toBinary64 few, Decimal.toBinary64_eq down, Nat.pow_zero, Nat.mul_one]

/-! ## (2) Bytes -/

/-- A digit is one as a byte and as a character. -/
theorem isDigit_asciiChar (b : UInt8) : (Utf8.asciiChar b).isDigit = Byte.isDigit b := by
  have same := Kind.forall_byte (p := fun b => (Utf8.asciiChar b).isDigit == Byte.isDigit b)
    (by decide +kernel) b
  exact beq_iff_eq.mp same

/-- The bytes that a numeral runs on with are those of digits and of the dot. -/
theorem isNumeralPart_iff {b : UInt8} : Byte.isNumeralPart b = true ↔
    (Utf8.asciiChar b).isDigit = true ∨ Utf8.asciiChar b = '.' := by
  have same := Kind.forall_byte (p := fun b => Byte.isNumeralPart b ==
    ((Utf8.asciiChar b).isDigit || Utf8.asciiChar b == '.')) (by decide +kernel) b
  rw [beq_iff_eq.mp same, Bool.or_eq_true, beq_iff_eq]

/-- A digit is a character of ASCII. -/
theorem toNat_lt_of_isDigit {c : Char} (digit : c.isDigit = true) : c.toNat < 0x80 := by
  simp only [Char.isDigit, Bool.and_eq_true, decide_eq_true_eq, UInt32.le_iff_toNat_le] at digit
  exact Nat.lt_of_le_of_lt digit.2 (by decide)

/-- The characters of a numeral are characters of ASCII. -/
theorem IsNumeral.toNat_lt {text : List Char} (numeral : IsNumeral text) :
    ∀ c ∈ text, c.toNat < 0x80 := by
  obtain ⟨c, rest, rfl, digit, parts⟩ := numeral
  refine List.forall_mem_cons.mpr ⟨toNat_lt_of_isDigit digit, fun d member => ?_⟩
  rcases parts d member with digit | rfl
  · exact toNat_lt_of_isDigit digit
  · decide

/-- **The bytes of a numeral** are a digit and a run of digits and dots. -/
theorem IsNumeral.exists_encode {text : String} (numeral : IsNumeral text.toList) : ∃ b run,
    Utf8.encode text = b :: run ∧ Byte.isDigit b = true ∧
      ∀ c ∈ run, Byte.isNumeralPart c = true := by
  have small := numeral.toNat_lt
  have bytes := Utf8.encode_of_ascii small
  obtain ⟨c, rest, whole, digit, parts⟩ := numeral
  rw [whole] at bytes small
  obtain ⟨first, others⟩ := List.forall_mem_cons.mp small
  refine ⟨_, _, bytes, ?_, ?_⟩
  · rw [← isDigit_asciiChar, Utf8.asciiChar_asciiByte first]
    exact digit
  · intro b member
    obtain ⟨d, inside, rfl⟩ := List.mem_map.mp member
    rw [isNumeralPart_iff, Utf8.asciiChar_asciiByte (others d inside)]
    exact parts d inside

/-- **The text of a numeral** is one, whatever bytes it is decoded from. -/
theorem isNumeral_decode {b : UInt8} {run : List UInt8} (digit : Byte.isDigit b = true)
    (runs : ∀ c ∈ run, Byte.isNumeralPart c = true) :
    IsNumeral (Utf8.decode (b :: run)).toList := by
  rw [Utf8.toList_decode_of_ascii (Lexeme.ascii_of_numeral digit runs)]
  refine ⟨_, _, rfl, by rw [isDigit_asciiChar, digit], ?_⟩
  intro d member
  obtain ⟨c, inside, rfl⟩ := List.mem_map.mp member
  exact isNumeralPart_iff.mp (runs c inside)

/-! ## (3) Tokens -/

/-- **A token that is a number** is a numeral, and has the value of it. -/
theorem Lexes.numeral {span : Span} {bytes rest : List UInt8} {t : Token}
    (lexes : Lexes span bytes rest (.token t)) (number : t.kind = .number) :
    IsNumeral t.lexeme.toList ∧ t.literal = some (.number (numeralValue t.lexeme.toList)) := by
  cases lexes with
  | number digit runs stops => exact ⟨isNumeral_decode digit runs, rfl⟩
  | @mark k _ listed =>
      obtain rfl : k = .number := number
      cases (by decide : Kind.number ∉ Kind.marks) listed
  | @joined single double _ listed =>
      obtain rfl : double = .number := number
      simp [Kind.doublables] at listed
  | @alone single double _ listed alone =>
      obtain rfl : single = .number := number
      simp [Kind.doublables] at listed
  | slash alone => cases number
  | @reserved b run _ k starts runs stops listed text =>
      obtain rfl : k = .number := number
      cases (by decide : Kind.number ∉ Kind.words) listed
  | identifier starts runs stops other => cases number
  | string inside => cases number

/-- A number among the items of a source is a numeral, and has the value of it. -/
theorem numeral_of_mem_scan {source : List UInt8} {t : Token} (member : .token t ∈ scan source)
    (number : t.kind = .number) :
    IsNumeral t.lexeme.toList ∧ t.literal = some (.number (numeralValue t.lexeme.toList)) := by
  rcases (scans_scan source).exists_lexes member with ⟨span, last⟩ | ⟨span, bytes, more, -, lexes⟩
  · cases last
    cases number
  · exact lexes.numeral number

/-- What a numeral is read as is a number without a sign. -/
theorem numeralValue_unsigned (text : List Char) :
    (numeralValue text).isNaN = false ∧ (numeralValue text).isNegative = false := by
  obtain few | many := Nat.lt_or_ge (dots text) 2
  · obtain ⟨num, den, -, -, value⟩ := exists_nearest_numeral (Nat.le_of_lt_succ few)
    rw [value]
    exact ⟨Binary64.isNaN_nearest num den, Binary64.isNegative_nearest num den⟩
  · rw [numeralValue_of_dots many]
    decide

/-- **The value of a number in a source.** Its text is a numeral. With at most one dot, its value is
the one double nearest to the number that the numeral denotes: infinity from the overflow on, zero
up to the underflow, and of two at the same distance the even one. With more dots it is zero. So it
is never negative and always a number, and a greater numeral, in whatever source, has no smaller
value. -/
theorem literal_of_number {source : List UInt8} {t : Token} (member : .token t ∈ scan source)
    (number : t.kind = .number) :
    IsNumeral t.lexeme.toList ∧ ∃ x, t.literal = some (.number x) ∧
      (dots t.lexeme.toList ≤ 1 →
        (∀ y, Binary64.IsNearest (numeralRat t.lexeme.toList) y ↔ y = x) ∧
          (x = .ofMagnitude 0 ↔ numeralRat t.lexeme.toList ≤ Binary64.underflow)) ∧
      (2 ≤ dots t.lexeme.toList → x = .ofMagnitude 0) ∧
      x.isNaN = false ∧ x.isNegative = false ∧
      ∀ (other : List UInt8) (u : Token) (y : Binary64), .token u ∈ scan other →
        u.kind = .number → u.literal = some (.number y) → dots t.lexeme.toList ≤ 1 →
        dots u.lexeme.toList ≤ 1 → numeralRat t.lexeme.toList ≤ numeralRat u.lexeme.toList →
        x.extended ≤ y.extended := by
  obtain ⟨numeral, literal⟩ := numeral_of_mem_scan member number
  refine ⟨numeral, _, literal, ?nearest, numeralValue_of_dots, (numeralValue_unsigned _).1,
    (numeralValue_unsigned _).2, ?mono⟩
  case nearest =>
    intro few
    obtain ⟨num, den, positive, denotes, value⟩ := exists_nearest_numeral few
    have nearest := Binary64.isNearest_nearest num positive
    rw [denotes, value]
    refine ⟨fun y => ⟨fun near => near.unique nearest, ?_⟩,
      Binary64.nearest_eq_zero_iff num positive⟩
    rintro rfl
    exact nearest
  case mono =>
    intro other u y member' number' literal' few few' atMost
    obtain ⟨-, value⟩ := numeral_of_mem_scan member' number'
    rw [literal'] at value
    cases value
    obtain ⟨num, den, positive, denotes, value⟩ := exists_nearest_numeral few
    obtain ⟨num', den', positive', denotes', value'⟩ := exists_nearest_numeral few'
    rw [denotes, denotes'] at atMost
    rw [value, value']
    exact Binary64.extended_nearest_mono positive positive' atMost

/-- The numeral `9007199254740993` stands in the middle between two doubles and is read as the even
one, `2 ^ 53`. -/
theorem literal_of_number_tie :
    let t : Token := ⟨.number, "9007199254740993",
      some (.number (.ofMagnitude 0x4340000000000000)), ⟨0, 16, 1⟩⟩
    .token t ∈ scan (Utf8.encode "9007199254740993") ∧ t.kind = .number ∧
      dots "9007199254740993".toList ≤ 1 ∧
      ∀ y, Binary64.IsNearest (numeralRat "9007199254740993".toList) y ↔
        y = .ofMagnitude 0x4340000000000000 := by
  intro t
  have member : .token t ∈ scan (Utf8.encode "9007199254740993") := by decide +kernel
  have few : dots "9007199254740993".toList ≤ 1 := by decide
  obtain ⟨-, x, literal, nearest, -⟩ := literal_of_number member rfl
  cases literal
  exact ⟨member, rfl, few, (nearest few).1⟩

/-! ## (4) Plain texts -/

/-- **A numeral alone** is one token, and the end of input after it. -/
theorem scan_numeral {text : String} (numeral : IsNumeral text.toList) :
    let stop := (Utf8.encode text).length
    scan (Utf8.encode text) =
      [.token ⟨.number, text, some (.number (numeralValue text.toList)), ⟨0, stop, 1⟩⟩,
        .token (.endOfInput ⟨stop, stop, 1⟩)] := by
  intro stop
  obtain ⟨b, run, bytes, digit, runs⟩ := numeral.exists_encode
  have stops : Stops Byte.isNumeralPart [] := by simp [Stops]
  have blank : StartsBlank [] := by simp [StartsBlank]
  have lexes : Lexes (.after [] (b :: run)) (b :: run) [] _ := .number digit runs stops
  have scanned := scan_of_scans (.item .nil (lexes.isBare blank) lexes (.ended .nil))
  have line : Byte.newline ∉ b :: run := by
    intro member
    rcases List.mem_cons.mp member with rfl | member
    · cases digit
    · cases runs _ member
  rw [← bytes] at scanned line
  rw [Utf8.decode_encode] at scanned
  simpa [Span.after, List.count_eq_zero_of_not_mem line] using scanned

/-- Digits around a dot are a numeral, read as the decimal that they denote. -/
theorem numeral_pointed {whole fraction : List Char} (some : whole ≠ [])
    (before : ∀ c ∈ whole, c.isDigit = true) (after : ∀ c ∈ fraction, c.isDigit = true) :
    IsNumeral (whole ++ '.' :: fraction) ∧ numeralValue (whole ++ '.' :: fraction) =
      (Decimal.ofText (whole ++ '.' :: fraction)).toBinary64 := by
  have free : '.' ∉ whole := free_of_digits before rfl
  have one : dots (whole ++ '.' :: fraction) ≤ 1 := by
    rw [dots, List.count_append, List.count_cons_self, List.count_eq_zero_of_not_mem free,
      List.count_eq_zero_of_not_mem (free_of_digits after rfl)]
  rw [numeralValue_eq_toBinary64 one, upTo_mark free, past_mark free,
    Decimal.ofText_pointed before after]
  refine ⟨?_, rfl⟩
  obtain ⟨c, whole, rfl⟩ := List.exists_cons_of_ne_nil some
  obtain ⟨first, others⟩ := List.forall_mem_cons.mp before
  refine ⟨c, _, rfl, first, fun d member => ?_⟩
  rcases List.mem_append.mp member with inside | inside
  · exact .inl (others d inside)
  · rcases List.mem_cons.mp inside with dot | inside
    · exact .inr dot
    · exact .inl (after d inside)

/-- **A finite double without a sign** has a plain text that is a numeral and is read as it. -/
theorem numeral_plain {x : Binary64} (finite : x.isFinite = true)
    (unsigned : x.isNegative = false) :
    IsNumeral x.plain.toList ∧ numeralValue x.plain.toList = x := by
  have text : x.plain.toList = x.plainMagnitude := by
    rw [Binary64.toList_plain (Binary64.isNaN_of_isFinite finite), Binary64.plainBody,
      if_pos finite, Binary64.signText, unsigned, if_neg Bool.false_ne_true, List.nil_append]
  obtain ⟨whole, fraction, pointed, some, before, after⟩ := x.exists_plainMagnitude
  have back := Binary64.magnitude_ofText_plainMagnitude finite
  obtain ⟨numeral, value⟩ := numeral_pointed some before after
  rw [← pointed, ← text] at numeral value
  rw [← text, ← value] at back
  exact ⟨numeral, Binary64.eq_of_magnitude ((numeralValue_unsigned _).2.trans unsigned.symm) back⟩

/-- **A number is scanned back from its text.** -/
theorem scan_text_number {x : Binary64} (finite : x.isFinite = true)
    (unsigned : x.isNegative = false) :
    let text := (Value.number x).text
    let stop := (Utf8.encode text).length
    scan (Utf8.encode text) =
      [.token ⟨.number, text, some (.number x), ⟨0, stop, 1⟩⟩,
        .token (.endOfInput ⟨stop, stop, 1⟩)] := by
  obtain ⟨numeral, value⟩ := numeral_plain finite unsigned
  intro text stop
  have scanned := scan_numeral numeral
  rw [value] at scanned
  exact scanned

/-- The double nearest to one tenth is scanned back from `0.1`. -/
theorem scan_text_number_tenth :
    let x : Binary64 := ⟨0x3FB999999999999A⟩
    x.isFinite = true ∧ x.isNegative = false ∧ (Value.number x).text = "0.1" ∧
      scan (Utf8.encode "0.1") =
        [.token ⟨.number, "0.1", some (.number x), ⟨0, 3, 1⟩⟩,
          .token (.endOfInput ⟨3, 3, 1⟩)] := by
  intro x
  have finite : x.isFinite = true := by decide
  have unsigned : x.isNegative = false := by decide
  have text : (Value.number x).text = "0.1" := by decide +kernel
  have length : (Utf8.encode "0.1").length = 3 := by decide +kernel
  have scanned := scan_text_number finite unsigned
  rw [text] at scanned
  dsimp only at scanned
  rw [length] at scanned
  exact ⟨finite, unsigned, text, scanned⟩

end LoxSyntax
