/-!
# Decimals

A decimal is a sign, a natural coefficient and a power of ten. Numbers are written as decimals. A
numeral is how a number is written: digits, and then perhaps a point with further digits, and
perhaps an exponent.
-/

namespace TextDiagram

def digitsValue (s : List Char) : Nat :=
  s.foldl (fun n c => 10 * n + (c.toNat - '0'.toNat)) 0

structure Numeral where
  negative : Bool
  whole : List Char
  fraction : List Char
  exponent : Int
  deriving DecidableEq, Repr

namespace Numeral

/-- The exponent behind the letter `e`, zero if there is none. -/
def exponentValue : List Char → Int
  | [] => 0
  | _ :: '-' :: s => -(digitsValue s : Int)
  | _ :: '+' :: s => digitsValue s
  | _ :: s => digitsValue s

def ofText (s : List Char) : Numeral :=
  let unsigned := s.dropWhile fun c => c == '-'
  let (whole, afterWhole) := unsigned.span Char.isDigit
  let hasPoint := afterWhole.head? == some '.'
  let (fraction, afterFraction) :=
    if hasPoint then (afterWhole.drop 1).span Char.isDigit else ([], afterWhole)
  { negative := s.head? == some '-', whole, fraction, exponent := exponentValue afterFraction }

end Numeral

structure Decimal where
  negative : Bool
  coefficient : Nat
  exponent : Int
  deriving DecidableEq, Repr

namespace Decimal

/-- The value of a numeral. -/
def ofNumeral (n : Numeral) : Decimal where
  negative := n.negative
  coefficient := digitsValue (n.whole ++ n.fraction)
  exponent := n.exponent - n.fraction.length

/-- Whether a decimal is too great to be a binary64 number: its amount lies at or above the middle
between the greatest finite number and `2 ^ 1024`. Decimals of more than 310 places before their
point do, and those of less than 300 do not. -/
def overflows (d : Decimal) : Bool :=
  let bound := Nat.pow 2 1024 - Nat.pow 2 970
  let places : Int := (Nat.toDigits 10 d.coefficient).length + d.exponent
  if d.coefficient = 0 ∨ places < 300 then false
  else if 310 < places then true
  else bound * Nat.pow 10 (-d.exponent).toNat ≤ d.coefficient * Nat.pow 10 d.exponent.toNat

end Decimal

end TextDiagram
