import LoxSyntax.Number.Decimal

/-! # Shortest decimals
The decimals of one exponent form a grid. A double lies between two neighbours of each grid, and a
neighbour is a **hit** when it reads back to the double. The shortest decimal of a double is the hit
on the coarsest grid that has one; of two hits the nearer one, and of two equally near ones that
which the tie rule names.

Grids are numbered from the finest one needed, that of `10 ^ (-324)`: its spacing is less than a
unit, so it always has a hit. -/

namespace LoxSyntax

/-- Which of two equally near neighbours is taken. -/
inductive Tie where
  /-- The greater one. -/
  | up
  /-- The one with an even coefficient. -/
  | even
deriving DecidableEq, Repr

namespace Shortest

/-- Minus the exponent of the finest grid. -/
abbrev depth : Nat := 324

/-- How many steps of the finest grid make one. -/
def stepsPerOne : Nat := Nat.pow 10 depth

/-- The decimal of coefficient `n` on grid `j`. -/
def point (n j : Nat) : Decimal := ⟨n, (j : Int) - depth⟩

/-- Whether a decimal on a grid reads back to the double of the given magnitude. -/
def isHit (magnitude n j : Nat) : Bool :=
  Binary64.nearestMagnitude (n * Nat.pow 10 j) stepsPerOne == magnitude

/-- **The choice between two neighbours**, `below` and the next: the one that passes the test, or of
two the nearer one. The value is `past` parts above the lower neighbour, of which a step has
`step`. -/
def choice (tie : Tie) (test : Nat → Bool) (below past step : Nat) : Option Nat :=
  match test below, test (below + 1) with
  | true, false => some below
  | false, true => some (below + 1)
  | false, false => none
  | true, true =>
    if 2 * past < step then some below
    else if step < 2 * past then some (below + 1)
    else match tie with
      | .up => some (below + 1)
      | .even => some (below + below % 2)

/-- **The hit on grid `j`**, if there is one. Value and step are counted in a common part, of which
one has `unitsPerOne * stepsPerOne`. -/
def hit? (tie : Tie) (magnitude j : Nat) : Option Decimal :=
  let value := Binary64.unitsAt magnitude * stepsPerOne
  let step := Binary64.unitsPerOne * Nat.pow 10 j
  (choice tie (isHit magnitude · j) (value / step) (value % step) step).map (point · j)

/-- A grid too coarse to have a hit other than zero, for a positive magnitude: ten to the number of
the grid exceeds the value, counted in steps of the finest grid. Ninety-three doublings make less
than twenty-eight powers of ten. -/
def coarsest (magnitude : Nat) : Nat :=
  (Binary64.unitsAt magnitude * stepsPerOne / Binary64.unitsPerOne).log2 * 28 / 93 + 1

end Shortest

/-- **The shortest decimal** that reads back to the double of the given magnitude. -/
def shortest (tie : Tie) (magnitude : Nat) : Decimal :=
  (((List.range (Shortest.coarsest magnitude + 1)).reverse).findSome?
    (Shortest.hit? tie magnitude)).getD (Shortest.point 0 0)

end LoxSyntax
