import LoxSyntax.Number.Binary64

/-! # The double nearest to a fraction
The doubles stand on a grid whose spacing doubles from one binade to the next. To round a fraction,
its value in units is measured first; that tells its binade and so the spacing there; the fraction
is rounded to a multiple of the spacing; and the multiple, counted from the start of the binade, is
the magnitude. Rounding up to the first point of the next binade needs no care, since magnitudes run
on. -/

namespace LoxSyntax

/-- **Division to the nearest whole number**, a tie going to the even one. -/
def roundDiv (num den : Nat) : Nat :=
  let q := num / den
  let r := num % den
  if 2 * r < den then q
  else if den < 2 * r then q + 1
  else q + q % 2

namespace Binary64

/-- How often the spacing of the grid has doubled, at a value of `w` whole units. -/
def doublings (w : Nat) : Nat := w.log2 - 52

/-- The magnitude nearest to `num / den`: from the middle between the greatest finite double and the
next power of two on, it is that of infinity. -/
def nearestMagnitude (num den : Nat) : Nat :=
  let scaled := num * unitsPerOne
  let s := doublings (scaled / den)
  min (s * binade + roundDiv scaled (den * Nat.pow 2 s)) infinite

/-- **The double nearest to `num / den`**, a tie going to the even fraction. -/
def nearest (num den : Nat) : Binary64 := ofMagnitude (nearestMagnitude num den)

theorem nearestMagnitude_le (num den : Nat) : nearestMagnitude num den ≤ infinite :=
  Nat.min_le_right ..

theorem magnitude_nearest (num den : Nat) :
    (nearest num den).magnitude = nearestMagnitude num den := by
  refine magnitude_ofMagnitude (Nat.lt_of_le_of_lt (nearestMagnitude_le num den) ?_)
  decide

/-- A nearest double is never a not-a-number. -/
theorem isNaN_nearest (num den : Nat) : (nearest num den).isNaN = false := by
  simpa [isNaN, magnitude_nearest] using nearestMagnitude_le num den

/-- A nearest double never has its sign bit set. -/
theorem isNegative_nearest (num den : Nat) : (nearest num den).isNegative = false := by
  refine isNegative_ofMagnitude (Nat.lt_of_le_of_lt (nearestMagnitude_le num den) ?_)
  decide

end Binary64

end LoxSyntax
