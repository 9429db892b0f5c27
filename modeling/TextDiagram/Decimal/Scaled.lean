import TextDiagram.Decimal.Basic

/-!
# Reading a numeral with two roundings

A numeral is read as a whole number below `2 ^ 64` and a power of ten. The whole number is rounded
to a binary64 number, and its product or quotient with the power is rounded once more. So what is
read may be a neighbour of the number that is nearest to the numeral.
-/

namespace TextDiagram.Decimal

structure Scaled where
  significand : Nat
  exponent : Int
  deriving DecidableEq, Repr

namespace Scaled

/-- Appends digits to a whole number as long as it stays below `2 ^ 64`, and gives what is left of
the digits. -/
def appendDigits (n : Nat) : List Char → Nat × List Char
  | [] => (n, [])
  | c :: s =>
    let next := 10 * n + (c.toNat - '0'.toNat)
    if next < Nat.pow 2 64 then appendDigits next s else (n, c :: s)

/-- Digits of the whole part that do not fit count as zeros, those of the fraction not at all. -/
def ofNumeral (n : Numeral) : Scaled :=
  let (whole, rest) := appendDigits 0 n.whole
  let (significand, dropped) := appendDigits whole n.fraction
  { significand
    exponent := n.exponent + rest.length - (n.fraction.length - dropped.length : Nat) }

/-- The greatest exponent of a power of ten that is a finite number. -/
def greatestPower : Nat :=
  308

/-- The product with a power of ten, if it is finite. The quotient by a power that is not finite is
taken in steps. -/
def scale (x : Float) (exponent : Int) : Option Float :=
  if exponent.natAbs ≤ greatestPower then
    let power := Float.ofScientific 1 false exponent.natAbs
    some (if exponent < 0 then x / power else x * power) |>.filter Float.isFinite
  else if x == 0 then some x
  else if 0 ≤ exponent then none
  else scale (x / Float.ofScientific 1 false greatestPower) (exponent + greatestPower)
termination_by exponent.natAbs
decreasing_by
  unfold greatestPower at *
  omega

def toFloat? (d : Scaled) : Option Float :=
  scale d.significand.toUInt64.toFloat d.exponent

end Scaled

/-- The binary64 number that a numeral is read as, if it is finite. -/
def readFloat? (n : Numeral) : Option Float :=
  (Scaled.ofNumeral n).toFloat?.map fun x => if n.negative then -x else x

end TextDiagram.Decimal
