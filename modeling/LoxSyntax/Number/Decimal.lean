import LoxSyntax.Number.Nearest

/-! # Decimals and numerals
A decimal is a coefficient and a power of ten. A **numeral** is a text of digits and dots: with at
most one dot it denotes a decimal, with more it denotes none and is read as zero. -/

namespace LoxSyntax

/-- A **decimal**: the value `coefficient * 10 ^ exponent`. -/
structure Decimal where
  /-- The digits, as a number. -/
  coefficient : Nat
  /-- The power of ten. -/
  exponent : Int
deriving DecidableEq, Repr

namespace Decimal

/-- The numerator of a decimal written as a fraction. -/
def numerator (d : Decimal) : Nat := d.coefficient * Nat.pow 10 d.exponent.toNat

/-- The denominator of a decimal written as a fraction. -/
def denominator (d : Decimal) : Nat := Nat.pow 10 (-d.exponent).toNat

/-- The double nearest to a decimal. -/
def toBinary64 (d : Decimal) : Binary64 := .nearest d.numerator d.denominator

/-- The number that digits denote, most significant first. -/
def ofDigits (digits : List Char) : Nat :=
  digits.foldl (fun n c => n * 10 + (c.toNat - '0'.toNat)) 0

end Decimal

/-- **The value of a numeral.** The text before the first dot and the text after it give the digits,
and each digit after it one power of ten; a second dot leaves nothing to read. -/
def numeralValue (text : List Char) : Binary64 :=
  let whole := text.takeWhile (· ≠ '.')
  let fraction := (text.dropWhile (· ≠ '.')).drop 1
  if fraction.contains '.' then .ofMagnitude 0
  else Decimal.toBinary64 ⟨Decimal.ofDigits (whole ++ fraction), -fraction.length⟩

end LoxSyntax
