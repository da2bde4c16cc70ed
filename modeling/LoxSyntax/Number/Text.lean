import LoxSyntax.Number.Shortest

/-! # Numbers as text
Two texts of a double. The **plain** text never has an exponent: a whole number is written with all
its digits and one zero after the point, any other number by its shortest decimal. The **JSON** text
is the shortest decimal, positional for the powers of ten from `-5` to `15` and with an exponent
outside. -/

namespace LoxSyntax

/-- The digits of a decimal, with a point before the last `places` of them and at least one digit
before the point. -/
def withPoint (digits : List Char) (places : Nat) : List Char :=
  let padded := List.replicate (places + 1 - digits.length) '0' ++ digits
  padded.take (padded.length - places) ++ '.' :: padded.drop (padded.length - places)

namespace Decimal

/-- The digits of the coefficient. -/
def digits (d : Decimal) : List Char := Nat.toDigits 10 d.coefficient

/-- **Positional text**: no exponent, and at least one digit on each side of the point. -/
def positional (d : Decimal) : List Char :=
  if d.exponent < 0 then withPoint d.digits (-d.exponent).toNat
  else d.digits ++ List.replicate d.exponent.toNat '0' ++ ['.', '0']

/-- The power of ten of the first digit. -/
def power (d : Decimal) : Int := d.exponent + (d.digits.length - 1 : Nat)

/-- **Exponent text**: one digit, a point and the other digits if there are any, and the power of
ten with its sign. -/
def scientific (d : Decimal) : List Char :=
  let rest := d.digits.drop 1
  d.digits.take 1 ++ (if rest.isEmpty then [] else '.' :: rest) ++
    ['e', if d.power < 0 then '-' else '+'] ++ Nat.toDigits 10 d.power.natAbs

end Decimal

namespace Binary64

/-- The sign of a number that has one to show. -/
def signText (x : Binary64) : List Char := if x.isNegative then ['-'] else []

/-- The plain text of a finite double without its sign. -/
def plainMagnitude (x : Binary64) : List Char :=
  if x.units % unitsPerOne = 0 then Nat.toDigits 10 (x.units / unitsPerOne) ++ ['.', '0']
  else (shortest .up x.magnitude).positional

/-- **The plain text of a double.** -/
def plain (x : Binary64) : String :=
  if x.isNaN then "NaN"
  else if x.isFinite then String.ofList (x.signText ++ x.plainMagnitude)
  else String.ofList (x.signText ++ ['i', 'n', 'f'])

/-- The JSON text of a finite double without its sign. -/
def jsonMagnitude (x : Binary64) : List Char :=
  if x.magnitude = 0 then ['0', '.', '0']
  else
    let d := shortest .even x.magnitude
    if -5 ≤ d.power ∧ d.power ≤ 15 then d.positional else d.scientific

/-- **The JSON text of a double**; JSON has no numbers beyond the finite ones. -/
def json (x : Binary64) : String :=
  if x.isFinite then String.ofList (x.signText ++ x.jsonMagnitude) else "null"

end Binary64

end LoxSyntax
