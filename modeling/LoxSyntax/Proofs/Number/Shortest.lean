import LoxSyntax.Number.Shortest
import LoxSyntax.Proofs.Number.Nearest

/-! # Shortest decimals read back
The finest grid has a hit for every finite double, so the search for the shortest decimal ends with
a hit, and a hit reads back to its double. -/

namespace LoxSyntax

namespace Shortest

theorem stepsPerOne_eq : stepsPerOne = 10 ^ depth := by decide +kernel

/-- A point that passes the test of its grid reads back to the double. -/
theorem magnitude_point {m n j : Nat} (hit : isHit m n j = true) :
    (point n j).toBinary64.magnitude = m := by
  have exponent : (point n j).exponent = (j : Int) - depth := rfl
  rw [Decimal.toBinary64_eq exponent, Binary64.magnitude_nearest, ← stepsPerOne_eq]
  exact eq_of_beq hit

variable {tie : Tie} {test : Nat → Bool} {below past step : Nat}

/-- The neighbour that is chosen passes the test. -/
theorem test_of_choice {n : Nat} (chosen : choice tie test below past step = some n) :
    test n = true := by
  unfold choice at chosen
  split at chosen
  case h_1 lower _ =>
    cases chosen
    exact lower
  case h_2 _ upper =>
    cases chosen
    exact upper
  case h_3 => cases chosen
  case h_4 lower upper =>
    split at chosen
    · cases chosen
      exact lower
    split at chosen
    · cases chosen
      exact upper
    cases tie with
    | up =>
      cases chosen
      exact upper
    | even =>
      cases chosen
      obtain even | odd := Nat.mod_two_eq_zero_or_one below
      · rw [even]
        exact lower
      · rw [odd]
        exact upper

/-- There is a neighbour to choose when the lower one passes the test. -/
theorem isSome_choice (lower : test below = true) : (choice tie test below past step).isSome := by
  unfold choice
  rw [lower]
  split
  · rfl
  · contradiction
  · contradiction
  · split
    · rfl
    split
    · rfl
    · cases tie <;> rfl

/-- **A hit reads back** to its double. -/
theorem magnitude_of_hit? {m j : Nat} {d : Decimal} (hit : hit? tie m j = some d) :
    d.toBinary64.magnitude = m := by
  rw [hit?, Option.map_eq_some_iff] at hit
  obtain ⟨n, chosen, rfl⟩ := hit
  have reads := test_of_choice chosen
  exact magnitude_point reads

theorem unitsPerOne_pos : 0 < Binary64.unitsPerOne := by decide +kernel

/-- A step of the finest grid is less than half a unit. -/
theorem two_mul_unitsPerOne_lt : 2 * Binary64.unitsPerOne < stepsPerOne := by decide +kernel

/-- Rounding down to a whole number of steps loses less than half of something that is more than two
steps. -/
theorem floor_near (value : Nat) {step most : Nat} (positive : 0 < step) (fine : 2 * step < most) :
    value / step * step ≤ value ∧ 2 * value < 2 * (value / step * step) + most := by
  have parts := Nat.div_add_mod value step
  have past := Nat.mod_lt value positive
  rw [Nat.mul_comm] at parts
  omega

/-- **The finest grid has a hit** for every finite double: its neighbour below is less than half a
unit away. -/
theorem isSome_hit?_zero (tie : Tie) {m : Nat} (finite : m < Binary64.infinite) :
    (hit? tie m 0).isSome := by
  obtain ⟨below, near⟩ := floor_near (Binary64.unitsAt m * stepsPerOne)
    unitsPerOne_pos two_mul_unitsPerOne_lt
  have one : Nat.pow 10 0 = 1 := rfl
  rw [hit?, Option.isSome_map, one, Nat.mul_one]
  refine isSome_choice (beq_of_eq ?_)
  rw [one, Nat.mul_one]
  exact Binary64.nearestMagnitude_eq finite below near

end Shortest

/-- **The shortest decimal reads back** to its double. -/
theorem magnitude_shortest (tie : Tie) {m : Nat} (finite : m < Binary64.infinite) :
    (shortest tie m).toBinary64.magnitude = m := by
  have found : ((List.range (Shortest.coarsest m + 1)).reverse.findSome?
      (Shortest.hit? tie m)).isSome := by
    rw [List.findSome?_isSome_iff]
    exact ⟨0, by simp, Shortest.isSome_hit?_zero tie finite⟩
  obtain ⟨d, taken⟩ := Option.isSome_iff_exists.mp found
  obtain ⟨j, -, hit⟩ := List.exists_of_findSome?_eq_some taken
  simp only [shortest, taken, Option.getD_some]
  exact Shortest.magnitude_of_hit? hit

end LoxSyntax
