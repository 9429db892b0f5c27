import TextDiagram.Decimal.Basic
import TextDiagram.Json.Record

/-!
# Reading the values of a configuration file

A number that is too great to be stored is not accepted in a field of a record, not even in one of
the record's own. A list may go on behind the last field of its record, and whatever stands there is
not looked at.
-/

namespace TextDiagram.Toml

/-- An integer takes 128 bits at most, with its sign if it is negative. -/
def isStorableInteger (n : Decimal) : Bool :=
  if n.negative then n.coefficient ≤ Nat.pow 2 127 else n.coefficient < Nat.pow 2 128

def isStorable (literal : String) : Bool :=
  let number := Decimal.ofNumeral (.ofText literal.toList)
  if literal.toList.all fun c => c.isDigit || c == '-' then isStorableInteger number
  else !number.overflows

/-- An array or a table that holds nothing. -/
def isEmptyCollection : Json → Bool
  | .array [] | .object [] => true
  | _ => false

def readingRules : Json.ReadingRules where
  passes := Json.numbersAll isStorable
  allowsMore := true
  isEmpty := isEmptyCollection

end TextDiagram.Toml
