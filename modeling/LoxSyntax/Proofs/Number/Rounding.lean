import LoxSyntax.Proofs.Number.Plain
import Mathlib.Algebra.Order.Field.Rat
import Mathlib.Algebra.Order.Ring.Abs
import Mathlib.Order.WithBot
import Mathlib.Tactic.Linarith
import Mathlib.Tactic.Ring

/-! # Rounding to the nearest double
The double of a fraction is the one nearest to it as a rational number, ties going to the even one.

1. *The grid as a rising sequence*: the values of the magnitudes, and the two neighbours between
   which a fraction lies.
2. *Nearest places*: rounding on the grid without an end, where infinity is the place of the next
   power of two. Such a place is unique and rises with the number it is nearest to.
3. *Nearest doubles*: doubles as rational numbers, and what makes one of them the nearest. -/

namespace LoxSyntax

namespace Binary64

/-! ## (1) The grid as a rising sequence -/

/-- **The grid rises.** -/
theorem unitsAt_strictMono : StrictMono unitsAt := by
  -- Both ends of a step are places of its own spacing, so no binade needs a look of its own.
  refine strictMono_nat_of_lt_succ fun m => ?_
  obtain ⟨s, k, rfl, normal, inside⟩ := exists_step m
  rw [Nat.add_assoc, unitsAt_place normal (by omega), unitsAt_place (by omega) inside,
    Nat.mul_lt_mul_right (Nat.two_pow_pos s)]
  exact Nat.lt_succ_self k

/-- Between how many steps a fraction lies, where the spacing is that of its whole units. -/
theorem steps_of_doublings (scaled den : Nat) :
    let s := doublings (scaled / den)
    (s = 0 ∨ binade ≤ scaled / (den * 2 ^ s)) ∧ scaled / (den * 2 ^ s) < 2 * binade := by
  intro s
  rw [← Nat.div_div_eq_div_mul]
  have width : s = (scaled / den).log2 - 52 := rfl
  generalize scaled / den = w at *
  have high : w < 2 ^ (w.log2 + 1) := Nat.lt_log2_self
  refine ⟨?_, ?_⟩
  · obtain few | many : w.log2 ≤ 52 ∨ 52 < w.log2 := Nat.lt_or_ge 52 w.log2 |>.symm
    · exact .inl (by omega)
    · refine .inr ((Nat.le_div_iff_mul_le (Nat.two_pow_pos s)).mpr ?_)
      have low : 2 ^ w.log2 ≤ w := Nat.log2_self_le (by rintro rfl; simp at many)
      rwa [show w.log2 = 52 + s by omega, Nat.pow_add] at low
  · -- The logarithm bounds the whole units from above, whether the spacing has doubled or not.
    rw [Nat.div_lt_iff_lt_mul (Nat.two_pow_pos s)]
    have cover : 2 ^ (w.log2 + 1) ≤ 2 ^ (53 + s) := Nat.pow_le_pow_right (by decide) (by omega)
    rw [Nat.pow_add 2 53] at cover
    exact Nat.lt_of_lt_of_le high cover

/-- The value of a magnitude, as a rational number. -/
def valueAt (m : Nat) : ℚ := unitsAt m / unitsPerOne

theorem valueAt_strictMono : StrictMono valueAt := fun _ _ less =>
  div_lt_div_of_pos_right (Nat.cast_lt.mpr (unitsAt_strictMono less))
    (Nat.cast_pos.mpr Shortest.unitsPerOne_pos)

@[simp] theorem valueAt_zero : valueAt 0 = 0 := by
  rw [valueAt, unitsAt_zero, Nat.cast_zero, zero_div]

theorem valueAt_nonneg (m : Nat) : 0 ≤ valueAt m :=
  valueAt_zero ▸ valueAt_strictMono.monotone (Nat.zero_le m)

section

variable (num : Nat) {den : Nat} (positive : 0 < den) (a b : Nat)

include positive

/-- A fraction is compared with the middle of two values in whole numbers. -/
theorem lt_middle_iff : 2 * ((num : ℚ) / den) < valueAt a + valueAt b ↔
    2 * (num * unitsPerOne) < (unitsAt a + unitsAt b) * den := by
  rw [valueAt, valueAt, ← add_div, ← mul_div_assoc,
    div_lt_div_iff₀ (Nat.cast_pos.mpr positive) (Nat.cast_pos.mpr Shortest.unitsPerOne_pos),
    mul_assoc]
  exact_mod_cast Iff.rfl

theorem middle_lt_iff : valueAt a + valueAt b < 2 * ((num : ℚ) / den) ↔
    (unitsAt a + unitsAt b) * den < 2 * (num * unitsPerOne) := by
  rw [valueAt, valueAt, ← add_div, ← mul_div_assoc,
    div_lt_div_iff₀ (Nat.cast_pos.mpr Shortest.unitsPerOne_pos) (Nat.cast_pos.mpr positive),
    mul_assoc]
  exact_mod_cast Iff.rfl

end

/-! ## (2) Nearest places -/

/-- The **nearest place** to a number, on the grid without an end: the number is on its side of the
middle between it and any other place, and in the middle only if the place is even. -/
structure IsNearestPlace (q : ℚ) (m : Nat) : Prop where
  /-- No lower place is nearer. -/
  below : ∀ n < m, valueAt n + valueAt m ≤ 2 * q
  /-- No higher place is nearer. -/
  above : ∀ n > m, 2 * q ≤ valueAt m + valueAt n
  /-- Another place is as near only to an even one. -/
  even : ∀ n ≠ m, 2 * q = valueAt n + valueAt m → m % 2 = 0

/-- Below the middle of a step, its start is nearest; in the middle, if it is even. -/
theorem isNearestPlace_start {q : ℚ} {p : Nat} (low : valueAt p ≤ q)
    (near : 2 * q ≤ valueAt p + valueAt (p + 1))
    (tie : 2 * q = valueAt p + valueAt (p + 1) → p % 2 = 0) : IsNearestPlace q p where
  below n less := by
    have := valueAt_strictMono less
    linarith
  above n more := by
    have := valueAt_strictMono.monotone more
    linarith
  even n other equal := by
    obtain less | more := Nat.lt_or_gt_of_ne other
    · have := valueAt_strictMono less
      linarith
    · have := valueAt_strictMono.monotone more
      exact tie (by linarith)

/-- Above the middle of a step, its end is nearest; in the middle, if it is even. -/
theorem isNearestPlace_end {q : ℚ} {p : Nat} (high : q < valueAt (p + 1))
    (near : valueAt p + valueAt (p + 1) ≤ 2 * q)
    (tie : valueAt p + valueAt (p + 1) = 2 * q → (p + 1) % 2 = 0) : IsNearestPlace q (p + 1) where
  below n less := by
    have := valueAt_strictMono.monotone (Nat.le_of_lt_succ less)
    linarith
  above n more := by
    have := valueAt_strictMono more
    linarith
  even n other equal := by
    obtain less | more := Nat.lt_or_gt_of_ne other
    · have := valueAt_strictMono.monotone (Nat.le_of_lt_succ less)
      exact tie (by linarith)
    · have := valueAt_strictMono more
      linarith

/-- A number in the middle of two even places has a nearer one between them. -/
theorem ne_middle_of_even {q : ℚ} {a b : Nat} (less : a < b) (first : a % 2 = 0)
    (second : b % 2 = 0) (near : 2 * q ≤ valueAt a + valueAt (a + 1)) :
    2 * q ≠ valueAt a + valueAt b := by
  have between : valueAt (a + 1) < valueAt b := valueAt_strictMono (by omega)
  linarith

namespace IsNearestPlace

variable {q r : ℚ} {m n : Nat}

/-- **A number has one nearest place.** -/
theorem unique (first : IsNearestPlace q m) (second : IsNearestPlace q n) : m = n := by
  have never {a b : Nat} (lower : IsNearestPlace q a) (higher : IsNearestPlace q b) : ¬ a < b := by
    intro less
    have middle : 2 * q = valueAt a + valueAt b :=
      le_antisymm (lower.above b less) (higher.below a less)
    refine ne_middle_of_even less ?_ ?_ (lower.above (a + 1) (Nat.lt_succ_self a)) middle
    · exact lower.even b (Nat.ne_of_gt less) (by rw [middle, add_comm])
    · exact higher.even a (Nat.ne_of_lt less) middle
  exact Nat.le_antisymm (Nat.le_of_not_lt (never second first))
    (Nat.le_of_not_lt (never first second))

/-- **Greater numbers have greater nearest places.** -/
theorem mono (first : IsNearestPlace q m) (second : IsNearestPlace r n) (atMost : q ≤ r) :
    m ≤ n := by
  by_contra less
  have less : n < m := Nat.lt_of_not_le less
  have above := second.above m less
  have below := first.below n less
  obtain rfl : q = r := le_antisymm atMost (by linarith)
  exact Nat.ne_of_gt less (first.unique second)

/-- From the middle of the step after an odd place on, a later place is nearest. -/
theorem lt_iff_of_odd (near : IsNearestPlace q m) (odd : n % 2 = 1) :
    n < m ↔ valueAt n + valueAt (n + 1) ≤ 2 * q := by
  constructor
  · intro less
    have below := near.below n less
    have next : valueAt (n + 1) ≤ valueAt m := valueAt_strictMono.monotone less
    linarith
  · intro far
    by_contra atMost
    have atMost : m ≤ n := Nat.le_of_not_lt atMost
    have above := near.above (n + 1) (Nat.lt_succ_of_le atMost)
    have value : valueAt m ≤ valueAt n := valueAt_strictMono.monotone atMost
    -- Of the places up to the odd one only that one reaches the middle, and a tie is not for it.
    obtain rfl : m = n := valueAt_strictMono.injective (by linarith)
    have := near.even (m + 1) (Nat.succ_ne_self m) (by linarith)
    omega

/-- Up to the middle of the step after an even place, no later place is nearest. -/
theorem le_iff_of_even (near : IsNearestPlace q m) (even : n % 2 = 0) :
    m ≤ n ↔ 2 * q ≤ valueAt n + valueAt (n + 1) := by
  constructor
  · intro atMost
    have above := near.above (n + 1) (Nat.lt_succ_of_le atMost)
    have value : valueAt m ≤ valueAt n := valueAt_strictMono.monotone atMost
    linarith
  · intro close
    by_contra less
    have less : n < m := Nat.lt_of_not_le less
    have below := near.below n less
    have next : valueAt (n + 1) ≤ valueAt m := valueAt_strictMono.monotone less
    -- Of the places after the even one only the next is as near, and that is odd.
    obtain rfl : m = n + 1 := valueAt_strictMono.injective (by linarith)
    have := near.even n (Nat.ne_of_lt less) (by linarith)
    omega

end IsNearestPlace

/-- **Rounding within a step.** A fraction that has gone `rest` of the `width` of a step is rounded
to its start or its end. -/
theorem isNearestPlace_round {num den p start width rest : Nat} (positive : 0 < den)
    (first : unitsAt p * den = start) (last : unitsAt (p + 1) * den = start + width)
    (inside : num * unitsPerOne = start + rest) (within : rest < width) :
    IsNearestPlace (num / den)
      (if 2 * rest < width then p else if width < 2 * rest then p + 1 else p + p % 2) := by
  have before := lt_middle_iff num positive
  have after := middle_lt_iff num positive
  simp only [Nat.add_mul, inside] at before after
  have low : valueAt p ≤ num / den := by
    have := (before p p).not.mpr (by omega)
    linarith
  have high : num / den < valueAt (p + 1) := by
    have := (before (p + 1) (p + 1)).mpr (by omega)
    linarith
  have lower := before p (p + 1)
  have upper := after p (p + 1)
  rw [first, last] at lower upper
  split
  case isTrue near =>
    have less := lower.mpr (by omega)
    exact isNearestPlace_start low less.le fun tie => absurd tie less.ne
  case isFalse notNear =>
  split
  case isTrue far =>
    have more := upper.mpr (by omega)
    exact isNearestPlace_end high more.le fun tie => absurd tie more.ne
  case isFalse notFar =>
  have atLeast := not_lt.mp (lower.not.mpr (by omega))
  have atMost := not_lt.mp (upper.not.mpr (by omega))
  obtain even | odd := Nat.mod_two_eq_zero_or_one p
  · rw [even]
    exact isNearestPlace_start low atMost fun _ => even
  · rw [odd]
    exact isNearestPlace_end high atLeast fun _ => by omega

/-- **Rounding finds the nearest place**, and stops at infinity. -/
theorem exists_isNearestPlace (num : Nat) {den : Nat} (positive : 0 < den) :
    ∃ m, IsNearestPlace (num / den) m ∧ nearestMagnitude num den = min m infinite := by
  obtain ⟨normal, inside⟩ := steps_of_doublings (num * unitsPerOne) den
  simp only [nearestMagnitude, roundDiv, Nat.pow_eq]
  generalize scaling : num * unitsPerOne = scaled at *
  generalize doublings (scaled / den) = s at *
  have parts := Nat.div_add_mod' scaled (den * 2 ^ s)
  have within := Nat.mod_lt scaled (Nat.mul_pos positive (Nat.two_pow_pos s))
  generalize scaled / (den * 2 ^ s) = k at *
  generalize scaled % (den * 2 ^ s) = rest at *
  have first : unitsAt (s * binade + k) * den = k * (den * 2 ^ s) := by
    rw [unitsAt_place normal (Nat.le_of_lt inside), Nat.mul_assoc, Nat.mul_comm den]
  have last : unitsAt (s * binade + k + 1) * den = k * (den * 2 ^ s) + den * 2 ^ s := by
    rw [Nat.add_assoc, unitsAt_place (by omega) inside, Nat.mul_assoc, Nat.mul_comm _ den,
      Nat.succ_mul]
  refine ⟨_, isNearestPlace_round positive first last (scaling.trans parts.symm) within, ?_⟩
  -- The start of a binade is even, so the parity of the place is that of the steps.
  have even : s * binade % 2 = 0 := Nat.mod_eq_zero_of_dvd (Dvd.dvd.mul_left (by decide) s)
  have parity : (s * binade + k) % 2 = k % 2 := by
    rw [Nat.add_mod, even, Nat.zero_add, Nat.mod_mod]
  rw [parity]
  split
  · rfl
  · split <;> rw [Nat.add_assoc]

/-- Greater fractions have greater nearest magnitudes. -/
theorem nearestMagnitude_mono {num den num' den' : Nat} (positive : 0 < den) (positive' : 0 < den')
    (atMost : (num : ℚ) / den ≤ num' / den') :
    nearestMagnitude num den ≤ nearestMagnitude num' den' := by
  obtain ⟨m, near, value⟩ := exists_isNearestPlace num positive
  obtain ⟨n, near', value'⟩ := exists_isNearestPlace num' positive'
  rw [value, value']
  exact min_le_min_right infinite (near.mono near' atMost)

/-! ## (3) Nearest doubles -/

/-- The number that a finite double stands for. -/
def toRat (x : Binary64) : ℚ :=
  if x.isNegative then -valueAt x.magnitude else valueAt x.magnitude

/-- **The place of a number on the extended line**, which has the infinities at its ends. A double
that is not a number has none, and stands with the infinity of its sign. -/
def extended (x : Binary64) : WithBot (WithTop ℚ) :=
  if x.isFinite then (x.toRat : WithTop ℚ) else if x.isNegative then ⊥ else (⊤ : WithTop ℚ)

/-- From here on infinity is nearest: the middle between the greatest finite double and the next
power of two. -/
def overflow : ℚ := 2 ^ 1024 - 2 ^ 970

/-- Up to here zero is nearest: half the least positive double. -/
def underflow : ℚ := 1 / 2 ^ 1075

/-- **Nearest doubles.** A double without a sign is nearest to a number if it is infinite from the
overflow on and only then, and is otherwise at most as far from it as any finite double; of two at
the same distance it is the one of even magnitude. -/
structure IsNearest (q : ℚ) (x : Binary64) : Prop where
  /-- It stands for a number. -/
  number : x.isNaN = false
  /-- Its sign bit is clear. -/
  unsigned : x.isNegative = false
  /-- It is infinity from the overflow on, and only then. -/
  infinite_iff : x.isFinite = false ↔ overflow ≤ q
  /-- No finite double is nearer. -/
  nearest : x.isFinite = true → ∀ y : Binary64, y.isFinite = true → |q - x.toRat| ≤ |q - y.toRat|
  /-- Another number is as near only to an even one. -/
  even : x.isFinite = true → ∀ y : Binary64, y.isFinite = true → y.toRat ≠ x.toRat →
    |q - y.toRat| = |q - x.toRat| → x.magnitude % 2 = 0

theorem cast_unitsPerOne : (unitsPerOne : ℚ) = 2 ^ 1074 := by
  unfold unitsPerOne
  generalize 1074 = e
  rw [Nat.pow_eq, Nat.cast_pow, Nat.cast_ofNat]

theorem overflow_eq : valueAt (infinite - 1) + valueAt infinite = 2 * overflow := by
  have last : unitsAt (infinite - 1) = (2 * binade - 1) * 2 ^ 2045 :=
    unitsAt_place (s := 2045) (k := 2 * binade - 1) (by decide) (by decide)
  have next : unitsAt infinite = 2 * binade * 2 ^ 2045 :=
    unitsAt_place (s := 2045) (k := 2 * binade) (by decide) (by decide)
  have positive : (2 : ℚ) ^ 1074 ≠ 0 := pow_ne_zero _ two_ne_zero
  rw [valueAt, valueAt, ← add_div, ← Nat.cast_add, last, next, ← Nat.add_mul, Nat.cast_mul,
    Nat.cast_pow, Nat.cast_ofNat, cast_unitsPerOne, pow_add 2 971 1074, ← mul_assoc,
    mul_div_cancel_right₀ _ positive, overflow, pow_add 2 54 970, pow_succ 2 970]
  generalize (2 : ℚ) ^ 970 = spacing
  norm_num
  linarith

theorem underflow_eq : valueAt 0 + valueAt 1 = 2 * underflow := by
  have one : unitsAt 1 = 1 := unitsAt_of_lt (by decide)
  rw [valueAt_zero, zero_add, valueAt, one, cast_unitsPerOne, underflow, pow_succ 2 1074]
  generalize (2 : ℚ) ^ 1074 = units
  rw [Nat.cast_one, one_div, one_div, mul_inv]
  linarith

section

variable {q a b : ℚ} (less : a < b)

include less

/-- The lower of two numbers is at most as far up to the middle between them. -/
theorem dist_le_iff_le_middle : |q - a| ≤ |q - b| ↔ 2 * q ≤ a + b := by
  have squares : (q - b) ^ 2 - (q - a) ^ 2 = (b - a) * (a + b - 2 * q) := by ring
  rw [← sq_le_sq, ← sub_nonneg, squares, mul_nonneg_iff_of_pos_left (sub_pos.mpr less), sub_nonneg]

/-- The higher of two numbers is at most as far from the middle between them on. -/
theorem dist_le_iff_middle_le : |q - b| ≤ |q - a| ↔ a + b ≤ 2 * q := by
  have squares : (q - a) ^ 2 - (q - b) ^ 2 = (b - a) * (2 * q - (a + b)) := by ring
  rw [← sq_le_sq, ← sub_nonneg, squares, mul_nonneg_iff_of_pos_left (sub_pos.mpr less), sub_nonneg]

/-- Two numbers are as far from a third in the middle between them only. -/
theorem dist_eq_iff_middle : |q - a| = |q - b| ↔ 2 * q = a + b := by
  rw [le_antisymm_iff, dist_le_iff_le_middle less, dist_le_iff_middle_le less, ← le_antisymm_iff]

end

namespace IsNearestPlace

variable {q : ℚ} {m : Nat} (near : IsNearestPlace q m) (n : Nat)

include near

/-- The value of the nearest place is at most as far as any other. -/
theorem dist_le : |q - valueAt m| ≤ |q - valueAt n| := by
  obtain less | rfl | more := Nat.lt_trichotomy n m
  · exact (dist_le_iff_middle_le (valueAt_strictMono less)).mpr (near.below n less)
  · exact le_rfl
  · exact (dist_le_iff_le_middle (valueAt_strictMono more)).mpr (near.above n more)

/-- Another value is as far as that of the nearest place only if the place is even. -/
theorem even_of_dist_eq (other : n ≠ m) (tie : |q - valueAt n| = |q - valueAt m|) : m % 2 = 0 := by
  refine near.even n other ?_
  obtain less | more := Nat.lt_or_gt_of_ne other
  · exact (dist_eq_iff_middle (valueAt_strictMono less)).mp tie
  · rw [add_comm]
    exact (dist_eq_iff_middle (valueAt_strictMono more)).mp tie.symm

end IsNearestPlace

/-- Without a sign the number is the value of the magnitude. -/
theorem toRat_of_unsigned {x : Binary64} (unsigned : x.isNegative = false) :
    x.toRat = valueAt x.magnitude := by
  rw [toRat, unsigned, if_neg Bool.false_ne_true]

/-- A sign does not bring a double nearer to a number that has none. -/
theorem dist_magnitude_le {q : ℚ} (nonneg : 0 ≤ q) (y : Binary64) :
    |q - valueAt y.magnitude| ≤ |q - y.toRat| := by
  have positive := valueAt_nonneg y.magnitude
  unfold toRat
  split
  · rw [sub_neg_eq_add, abs_of_nonneg (add_nonneg nonneg positive), abs_le]
    constructor <;> linarith
  · exact le_rfl

/-- A double as near as the nearest place has a sign only if it is zero. -/
theorem toRat_of_dist_eq {q : ℚ} {m : Nat} (nonneg : 0 ≤ q) (near : IsNearestPlace q m)
    {y : Binary64} (tie : |q - y.toRat| = |q - valueAt m|) : y.toRat = valueAt y.magnitude := by
  by_cases negative : y.isNegative = true
  · have positive := valueAt_nonneg y.magnitude
    have value : y.toRat = -valueAt y.magnitude := if_pos negative
    -- Zero is at a distance of `q`, and `y` beyond it.
    have zero := near.dist_le 0
    rw [valueAt_zero, sub_zero, abs_of_nonneg nonneg, ← tie, value, sub_neg_eq_add,
      abs_of_nonneg (add_nonneg nonneg positive)] at zero
    linarith
  · exact toRat_of_unsigned (Bool.not_eq_true _ ▸ negative)

/-- **The nearest place makes the nearest double.** -/
theorem isNearest_of_place {q : ℚ} {m : Nat} (nonneg : 0 ≤ q) (near : IsNearestPlace q m) :
    IsNearest q (ofMagnitude (min m infinite)) := by
  have small : min m infinite < signBit := Nat.lt_of_le_of_lt (Nat.min_le_right ..) (by decide)
  have magnitude := magnitude_ofMagnitude small
  have unsigned := isNegative_ofMagnitude small
  have number := toRat_of_unsigned unsigned
  rw [magnitude] at number
  have finite_iff : (ofMagnitude (min m infinite)).isFinite = true ↔ m < infinite := by
    simp only [isFinite, magnitude, decide_eq_true_eq, min_lt_iff, lt_irrefl, or_false]
  refine ⟨?number, unsigned, ?infinite, ?nearest, ?even⟩
  case number => simp [isNaN, magnitude]
  case infinite =>
    have last := near.lt_iff_of_odd (n := infinite - 1) (by decide)
    rw [Nat.lt_iff_add_one_le, Nat.sub_add_cancel (by decide), overflow_eq,
      mul_le_mul_iff_right₀ two_pos] at last
    rw [← Bool.not_eq_true, finite_iff, Nat.not_lt, last]
  case nearest =>
    intro finite y _
    rw [number, Nat.min_eq_left (finite_iff.mp finite).le]
    exact (near.dist_le y.magnitude).trans (dist_magnitude_le nonneg y)
  case even =>
    intro finite y _ other tie
    have place : min m infinite = m := Nat.min_eq_left (finite_iff.mp finite).le
    rw [number, place] at other tie
    rw [magnitude, place]
    have value := toRat_of_dist_eq nonneg near tie
    rw [value] at other tie
    exact near.even_of_dist_eq _ (fun same => other (congrArg valueAt same)) tie

namespace IsNearest

variable {q : ℚ} {x y : Binary64}

/-- From the overflow on the nearest double is infinity. -/
theorem magnitude_of_overflow (near : IsNearest q x) (far : overflow ≤ q) :
    x.magnitude = infinite :=
  magnitude_of_infinite near.number (near.infinite_iff.mpr far)

/-- **A number has one nearest double.** -/
theorem unique (first : IsNearest q x) (second : IsNearest q y) : x = y := by
  refine eq_of_magnitude (first.unsigned.trans second.unsigned.symm) ?_
  by_cases far : overflow ≤ q
  · rw [first.magnitude_of_overflow far, second.magnitude_of_overflow far]
  have never {a b : Binary64} (lower : IsNearest q a) (higher : IsNearest q b) :
      ¬ a.magnitude < b.magnitude := by
    intro less
    have aFinite : a.isFinite = true := Bool.not_eq_false _ ▸ lower.infinite_iff.not.mpr far
    have bFinite : b.isFinite = true := Bool.not_eq_false _ ▸ higher.infinite_iff.not.mpr far
    have aValue := toRat_of_unsigned lower.unsigned
    have bValue := toRat_of_unsigned higher.unsigned
    have rise := valueAt_strictMono less
    have tie : |q - a.toRat| = |q - b.toRat| :=
      le_antisymm (lower.nearest aFinite b bFinite) (higher.nearest bFinite a aFinite)
    have other : b.toRat ≠ a.toRat := by
      rw [aValue, bValue]
      exact rise.ne'
    have aEven := lower.even aFinite b bFinite other tie.symm
    have bEven := higher.even bFinite a aFinite other.symm tie
    rw [aValue, bValue, dist_eq_iff_middle rise] at tie
    refine ne_middle_of_even less aEven bEven ?_ tie
    -- The double after the lower one is finite as well.
    have bSmall : b.magnitude < infinite := of_decide_eq_true bFinite
    have small : a.magnitude + 1 < infinite := Nat.lt_of_le_of_lt less bSmall
    have below : a.magnitude + 1 < signBit := Nat.lt_trans small (by decide)
    have magnitude := magnitude_ofMagnitude below
    have near := lower.nearest aFinite (ofMagnitude (a.magnitude + 1))
      (decide_eq_true (by rw [magnitude]; exact small))
    rwa [aValue, toRat_of_unsigned (isNegative_ofMagnitude below), magnitude,
      dist_le_iff_le_middle (valueAt_strictMono (Nat.lt_succ_self _))] at near
  exact Nat.le_antisymm (Nat.le_of_not_lt (never second first))
    (Nat.le_of_not_lt (never first second))

end IsNearest

/-- **Rounding finds the nearest double.** -/
theorem isNearest_nearest (num : Nat) {den : Nat} (positive : 0 < den) :
    IsNearest (num / den) (nearest num den) := by
  obtain ⟨m, near, magnitude⟩ := exists_isNearestPlace num positive
  rw [nearest, magnitude]
  exact isNearest_of_place (div_nonneg (Nat.cast_nonneg num) (Nat.cast_nonneg den)) near

/-- Zero is the nearest double up to the underflow. -/
theorem nearest_eq_zero_iff (num : Nat) {den : Nat} (positive : 0 < den) :
    nearest num den = ofMagnitude 0 ↔ (num : ℚ) / den ≤ underflow := by
  obtain ⟨m, near, magnitude⟩ := exists_isNearestPlace num positive
  have first := near.le_iff_of_even (n := 0) rfl
  rw [zero_add, underflow_eq, mul_le_mul_iff_right₀ two_pos] at first
  rw [← first]
  constructor
  · intro zero
    have same := congrArg Binary64.magnitude zero
    rw [magnitude_nearest, magnitude_ofMagnitude (by decide), magnitude] at same
    exact (min_le_iff.mp same.le).resolve_right (by decide)
  · intro zero
    rw [nearest, magnitude, Nat.le_zero.mp zero, Nat.zero_min]

/-- Numbers without a sign stand on the extended line as their magnitudes do. -/
theorem extended_mono {x y : Binary64} (xUnsigned : x.isNegative = false)
    (yUnsigned : y.isNegative = false) (atMost : x.magnitude ≤ y.magnitude) :
    x.extended ≤ y.extended := by
  unfold extended
  by_cases finite : y.isFinite = true
  · have small : y.magnitude < infinite := of_decide_eq_true finite
    have xFinite : x.isFinite = true := decide_eq_true (Nat.lt_of_le_of_lt atMost small)
    rw [if_pos finite, if_pos xFinite, toRat_of_unsigned xUnsigned, toRat_of_unsigned yUnsigned]
    exact_mod_cast valueAt_strictMono.monotone atMost
  · rw [if_neg finite, yUnsigned, if_neg Bool.false_ne_true]
    exact le_top

/-- **The nearest double rises** with the number that it is nearest to. -/
theorem extended_nearest_mono {num den num' den' : Nat} (positive : 0 < den) (positive' : 0 < den')
    (atMost : (num : ℚ) / den ≤ num' / den') :
    (nearest num den).extended ≤ (nearest num' den').extended := by
  refine extended_mono (isNegative_nearest ..) (isNegative_nearest ..) ?_
  rw [magnitude_nearest, magnitude_nearest]
  exact nearestMagnitude_mono positive positive' atMost

end Binary64

end LoxSyntax
