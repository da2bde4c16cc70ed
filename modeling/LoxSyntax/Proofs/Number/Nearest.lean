import LoxSyntax.Number.Decimal
import Mathlib.Algebra.Ring.Nat

/-! # The grid of doubles
What rounding does to a fraction depends on its value alone, and a fraction that is less than half a
unit from a double rounds to that double. Both are needed to tell that a decimal reads back. -/

namespace LoxSyntax

/-! ## Division to the nearest whole number -/

/-- A fraction is rounded by its value: a common factor of numerator and denominator is nothing to
it. -/
theorem roundDiv_mul_right (num den : Nat) {k : Nat} (positive : 0 < k) :
    roundDiv (num * k) (den * k) = roundDiv num den := by
  have below (a b : Nat) : 2 * (a * k) < b * k ↔ 2 * a < b := by
    rw [← Nat.mul_assoc, Nat.mul_lt_mul_right positive]
  have above (a b : Nat) : b * k < 2 * (a * k) ↔ b < 2 * a := by
    rw [← Nat.mul_assoc, Nat.mul_lt_mul_right positive]
  simp only [roundDiv, Nat.mul_div_mul_right _ _ positive, Nat.mul_mod_mul_right, below, above]

/-- A fraction less than one half from a whole number rounds to it. -/
theorem roundDiv_eq {num den q : Nat} (above : 2 * (q * den) < 2 * num + den)
    (below : 2 * num < 2 * (q * den) + den) : roundDiv num den = q := by
  have positive : 0 < den := by omega
  have parts : num = num / den * den + num % den := by
    rw [Nat.mul_comm]
    exact (Nat.div_add_mod num den).symm
  have rest := Nat.mod_lt num positive
  unfold roundDiv
  generalize num / den = p at *
  generalize num % den = r at *
  -- `num` lies between `p` and `p + 1` times `den`, so `q` is one of the two.
  obtain nearer | rfl | rfl | farther : q < p ∨ q = p ∨ q = p + 1 ∨ p + 2 ≤ q := by omega
  · have : (q + 1) * den ≤ p * den := Nat.mul_le_mul_right den nearer
    rw [Nat.add_mul, Nat.one_mul] at this
    omega
  · rw [if_pos (by omega)]
  · rw [Nat.add_mul, Nat.one_mul] at above below
    rw [if_neg (by omega), if_pos (by omega)]
  · have : (p + 2) * den ≤ q * den := Nat.mul_le_mul_right den farther
    rw [Nat.add_mul] at this
    omega

namespace Binary64

/-! ## Places on the grid -/

/-- The first binade counts units. -/
theorem unitsAt_of_lt {m : Nat} (small : m < binade) : unitsAt m = m := by
  unfold unitsAt
  rw [Nat.div_eq_of_lt small]

/-- Every later binade counts from its first value, in steps of its spacing. -/
theorem unitsAt_of_div {m e : Nat} (later : m / binade = e + 1) :
    unitsAt m = (binade + m % binade) * 2 ^ e := by
  unfold unitsAt
  simp only [later, Nat.pow_eq]

/-- Below the first doubling the spacing is one unit. -/
theorem doublings_of_lt {w : Nat} (high : w < 2 ^ 53) : doublings w = 0 := by
  by_cases zero : w = 0
  · rw [zero]
    rfl
  · have := (Nat.log2_lt zero).mpr high
    simp only [doublings]
    omega

/-- Values whose logarithm is `52 + s` are those where the spacing has doubled `s` times. -/
theorem doublings_eq {w s : Nat} (low : binade * 2 ^ s ≤ w) (high : w < 2 * (binade * 2 ^ s)) :
    doublings w = s := by
  have bottom : 2 ^ (52 + s) = binade * 2 ^ s := by rw [Nat.pow_add]
  have top : 2 ^ (52 + s + 1) = 2 * (binade * 2 ^ s) := by rw [Nat.pow_succ, bottom, Nat.mul_comm]
  have positive : w ≠ 0 := by
    have := Nat.two_pow_pos (52 + s)
    omega
  have log : w.log2 = 52 + s := by
    rw [Nat.log2_eq_iff positive]
    exact ⟨by omega, by omega⟩
  simp only [doublings, log, Nat.add_sub_cancel_left]

/-- A later binade, counted from its first place. -/
theorem unitsAt_later (e : Nat) {f : Nat} (fraction : f < binade) :
    unitsAt ((e + 1) * binade + f) = (binade + f) * 2 ^ e := by
  rw [Nat.add_comm ((e + 1) * binade)]
  have later : (f + (e + 1) * binade) / binade = e + 1 := by
    rw [Nat.add_mul_div_right _ _ (by decide), Nat.div_eq_of_lt fraction, Nat.zero_add]
  rw [unitsAt_of_div later, Nat.add_mul_mod_self_right, Nat.mod_eq_of_lt fraction]

/-- **Places of one spacing.** Where the spacing has doubled `s` times, the place that is `k` steps
from zero has the value of `k` steps. The last of these places is the first of the next binade. -/
theorem unitsAt_place {s k : Nat} (normal : s = 0 ∨ binade ≤ k) (most : k ≤ 2 * binade) :
    unitsAt (s * binade + k) = k * 2 ^ s := by
  by_cases small : k < binade
  · obtain rfl : s = 0 := normal.resolve_right (Nat.not_le.mpr small)
    rw [Nat.zero_mul, Nat.zero_add, unitsAt_of_lt small, Nat.pow_zero, Nat.mul_one]
  obtain ⟨f, rfl⟩ := Nat.exists_eq_add_of_le (Nat.not_lt.mp small)
  rw [← Nat.add_assoc, ← Nat.succ_mul]
  by_cases inside : f < binade
  · exact unitsAt_later s inside
  · obtain rfl : f = binade := by omega
    have next := unitsAt_later (s + 1) (f := 0) (by decide)
    rw [← Nat.succ_mul]
    rw [Nat.add_zero, Nat.add_zero, Nat.pow_succ'] at next
    rw [next, ← Nat.mul_assoc, Nat.mul_two]

/-- Every place is the start of a step. -/
theorem exists_step (m : Nat) :
    ∃ s k, m = s * binade + k ∧ (s = 0 ∨ binade ≤ k) ∧ k < 2 * binade := by
  refine ⟨m / binade - 1, m - (m / binade - 1) * binade, ?_⟩
  have parts := Nat.div_add_mod' m binade
  have rest : m % binade < binade := Nat.mod_lt m (by decide)
  generalize m / binade = e at *
  cases e with
  | zero => omega
  | succ s =>
    rw [Nat.succ_mul] at parts
    rw [Nat.add_sub_cancel]
    omega

/-- **Places.** A magnitude is a place of the grid on which its value is rounded, and also of the
grid on which a value of at most one unit less is rounded: the first value of a binade is the last
place of the binade before. -/
theorem exists_place {m w : Nat} (low : w ≤ unitsAt m) (high : unitsAt m ≤ w + 1) :
    ∃ q, unitsAt m = q * 2 ^ doublings w ∧ m = doublings w * binade + q := by
  obtain ⟨s, k, rfl, normal, inside⟩ := exists_step m
  rw [unitsAt_place normal (Nat.le_of_lt inside)] at low high ⊢
  have top : k * 2 ^ s < 2 * (binade * 2 ^ s) := by
    rw [← Nat.mul_assoc, Nat.mul_lt_mul_right (Nat.two_pow_pos s)]
    exact inside
  by_cases same : doublings w = s
  · exact ⟨k, by rw [same], by rw [same]⟩
  -- Otherwise `w` is below the binade, which only its first value is at most one more than.
  have below : w < binade * 2 ^ s := by
    by_contra within
    exact same (doublings_eq (Nat.not_lt.mp within) (Nat.lt_of_le_of_lt low top))
  cases s with
  | zero =>
    rw [Nat.pow_zero, Nat.mul_one] at low
    exact absurd (doublings_of_lt (Nat.lt_of_le_of_lt low inside)) same
  | succ e =>
    have atLeast : binade ≤ k := normal.resolve_left (Nat.succ_ne_zero e)
    obtain rfl : k = binade := by
      refine Nat.le_antisymm (Nat.le_of_mul_le_mul_right ?_ (Nat.two_pow_pos (e + 1))) atLeast
      omega
    have twice : binade * 2 ^ (e + 1) = 2 * (binade * 2 ^ e) := by
      rw [Nat.pow_succ, ← Nat.mul_assoc, Nat.mul_comm]
    have before : doublings w = e := by
      have : 0 < binade * 2 ^ e := Nat.mul_pos (by decide) (Nat.two_pow_pos e)
      exact doublings_eq (by omega) (by omega)
    refine ⟨2 * binade, ?_, ?_⟩
    · rw [before, twice, Nat.mul_assoc]
    · rw [before, Nat.succ_mul, Nat.add_assoc, Nat.two_mul]

/-! ## Nearest magnitudes -/

/-- The nearest magnitude belongs to the value of a fraction, not to the way it is written. -/
theorem nearestMagnitude_mul_right (num den : Nat) {k : Nat} (positive : 0 < k) :
    nearestMagnitude (num * k) (den * k) = nearestMagnitude num den := by
  have reorder (a b : Nat) : a * k * b = a * b * k := Nat.mul_right_comm ..
  simp only [nearestMagnitude, reorder, Nat.mul_div_mul_right _ _ positive,
    roundDiv_mul_right _ _ positive]

/-- **A fraction just below a double**, by less than half a unit, rounds to that double. -/
theorem nearestMagnitude_eq {num den m : Nat} (finite : m < infinite)
    (low : num * unitsPerOne ≤ unitsAt m * den)
    (near : 2 * (unitsAt m * den) < 2 * (num * unitsPerOne) + den) :
    nearestMagnitude num den = m := by
  have positive : 0 < den := by omega
  simp only [nearestMagnitude]
  generalize num * unitsPerOne = scaled at *
  have parts : scaled = scaled / den * den + scaled % den := by
    rw [Nat.mul_comm]
    exact (Nat.div_add_mod scaled den).symm
  have rest := Nat.mod_lt scaled positive
  generalize scaled / den = w at *
  generalize scaled % den = r at *
  -- The fraction has as many whole units as the double, or one less.
  have atMost : w ≤ unitsAt m := by
    refine Nat.le_of_mul_le_mul_right ?_ positive
    omega
  have atLeast : unitsAt m ≤ w + 1 := by
    by_contra beyond
    have : (w + 2) * den ≤ unitsAt m * den := Nat.mul_le_mul_right den (by omega)
    rw [Nat.add_mul] at this
    omega
  obtain ⟨q, value, place⟩ := exists_place atMost atLeast
  generalize doublings w = s at *
  have multiple : q * (den * Nat.pow 2 s) = unitsAt m * den := by
    rw [value, Nat.mul_comm den, ← Nat.mul_assoc]
    rfl
  have wider : den ≤ den * Nat.pow 2 s := Nat.le_mul_of_pos_right den (Nat.two_pow_pos s)
  have rounded : roundDiv scaled (den * Nat.pow 2 s) = q := by
    refine roundDiv_eq ?_ ?_ <;> rw [multiple] <;> omega
  rw [rounded, ← place]
  exact Nat.min_eq_left (Nat.le_of_lt finite)

end Binary64

/-! ## Decimals as fractions -/

/-- **A decimal as a fraction.** Any two powers of ten that differ by the exponent make the
numerator and the denominator of a fraction that has the double of the decimal. -/
theorem Decimal.toBinary64_eq {d : Decimal} {up down : Nat}
    (exponent : d.exponent = (up : Int) - down) :
    d.toBinary64 = .nearest (d.coefficient * 10 ^ up) (10 ^ down) := by
  obtain ⟨k, raised, lowered⟩ : ∃ k, up = d.exponent.toNat + k ∧ down = (-d.exponent).toNat + k :=
    ⟨up - d.exponent.toNat, by omega, by omega⟩
  have positive : 0 < 10 ^ k := Nat.pow_pos (by decide)
  rw [raised, lowered, Nat.pow_add, Nat.pow_add, ← Nat.mul_assoc]
  simp only [toBinary64, Binary64.nearest, numerator, denominator, Nat.pow_eq,
    Binary64.nearestMagnitude_mul_right _ _ positive]

end LoxSyntax
