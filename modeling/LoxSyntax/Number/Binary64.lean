/-! # Doubles by their bits
A double is told apart by its 64 bits, so that the two zeros and the many not-a-numbers stay
distinct; `Binary64.equal` is the comparison that joins the zeros and separates every not-a-number
from itself.

The **magnitude** of a double is its bits without the sign. The magnitudes below that of infinity
count the non-negative finite doubles in increasing order, and `unitsAt` gives the value of each as
a whole number of units, one unit being `2 ^ (-1074)`, the least positive double. Exact arithmetic
on doubles is thus arithmetic on natural numbers. -/

namespace LoxSyntax

/-- A **double**, by its bits: sign, eleven bits of exponent, fifty-two bits of fraction. -/
structure Binary64 where
  /-- The 64 bits, the sign highest. -/
  bits : UInt64
deriving DecidableEq, Repr

namespace Binary64

/-- The sign bit. -/
abbrev signBit : Nat := 0x8000000000000000

/-- The number of doubles that share a sign and an exponent. -/
abbrev binade : Nat := 0x10000000000000

/-- The magnitude of infinity, one above the greatest finite one. -/
abbrev infinite : Nat := 0x7FF0000000000000

/-- How many units one is. -/
def unitsPerOne : Nat := Nat.pow 2 1074

/-- The bits without the sign. -/
def magnitude (x : Binary64) : Nat := x.bits.toNat % signBit

/-- Whether the sign bit is set. -/
def isNegative (x : Binary64) : Bool := signBit ≤ x.bits.toNat

/-- Whether the double stands for no number. -/
def isNaN (x : Binary64) : Bool := infinite < x.magnitude

/-- Whether the double stands for a real number. -/
def isFinite (x : Binary64) : Bool := x.magnitude < infinite

/-- The double of a magnitude, with the sign bit clear. -/
def ofMagnitude (n : Nat) : Binary64 := ⟨UInt64.ofNat n⟩

/-- **Equality of numbers**: the zeros are equal, and no not-a-number equals anything. -/
def equal (x y : Binary64) : Bool :=
  !x.isNaN && !y.isNaN && (x == y || (x.magnitude == 0 && y.magnitude == 0))

/-- The value of the double of magnitude `n`, in units. Without exponent it is the fraction itself;
with exponent `e` it is the fraction with a leading one, doubled `e - 1` times. -/
def unitsAt (n : Nat) : Nat :=
  match n / binade with
  | 0 => n
  | e + 1 => (binade + n % binade) * Nat.pow 2 e

/-- The absolute value in units. -/
def units (x : Binary64) : Nat := unitsAt x.magnitude

@[simp] theorem unitsAt_zero : unitsAt 0 = 0 := rfl

theorem magnitude_ofMagnitude {n : Nat} (h : n < signBit) : (ofMagnitude n).magnitude = n := by
  simp only [magnitude, ofMagnitude, UInt64.toNat_ofNat', signBit] at h ⊢
  omega

theorem isNegative_ofMagnitude {n : Nat} (h : n < signBit) :
    (ofMagnitude n).isNegative = false := by
  simp only [isNegative, ofMagnitude, UInt64.toNat_ofNat', decide_eq_false_iff_not, signBit] at h ⊢
  omega

end Binary64

end LoxSyntax
