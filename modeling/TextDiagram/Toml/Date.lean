import TextDiagram.Decimal.Basic
import TextDiagram.Matcher

/-!
# Dates of a configuration file

A date is a day, a time of day, or both, and then perhaps an offset. A day has to be one of the
calendar. A time may leave out its second, and only a second has a fraction.
-/

namespace TextDiagram.Toml

open Text

/-- A number of exactly `n` digits. -/
def fixedDigits (n : Nat) : Matcher Nat := fun s =>
  let digits := s.take n
  if digits.length = n ∧ digits.all Char.isDigit then some (digitsValue digits, s.drop n)
  else none

def isLeapYear (year : Nat) : Bool :=
  year % 4 == 0 && (year % 100 != 0 || year % 400 == 0)

def daysInMonth (year month : Nat) : Nat :=
  if month = 2 then if isLeapYear year then 29 else 28
  else if month ∈ [4, 6, 9, 11] then 30
  else 31

/-- A year of four digits, a month and a day of two digits each. -/
def skipDay? (s : List Char) : Option (List Char) := do
  let (year, s) ← fixedDigits 4 s
  let s ← strip? ['-'] s
  let (month, s) ← fixedDigits 2 s
  let s ← strip? ['-'] s
  let (day, s) ← fixedDigits 2 s
  if 1 ≤ month ∧ month ≤ 12 ∧ 1 ≤ day ∧ day ≤ daysInMonth year month then some s else none

/-- Hours and minutes. -/
def skipMinutes? (s : List Char) : Option (List Char) := do
  let (hour, s) ← fixedDigits 2 s
  let s ← strip? [':'] s
  let (minute, s) ← fixedDigits 2 s
  if hour < 24 ∧ minute < 60 then some s else none

/-- The second of a time may be a leap second. -/
def skipSecond? (s : List Char) : Option (List Char) := do
  let (second, s) ← fixedDigits 2 s
  if 60 < second then none
  else
    match strip? ['.'] s with
    | none => some s
    | some s => if (s.takeWhile Char.isDigit).isEmpty then none else some (s.dropWhile Char.isDigit)

def skipTime? (s : List Char) : Option (List Char) := do
  let s ← skipMinutes? s
  match strip? [':'] s with
  | none => some s
  | some s => skipSecond? s

def isOffset : List Char → Bool
  | [] => true
  | c :: s => c ∈ ['Z', 'z'] && s.isEmpty || c ∈ ['+', '-'] && skipMinutes? s == some []

/-- A letter or a blank stands between a day and the time of that day. -/
def isDate (s : List Char) : Bool :=
  match skipDay? s with
  | none => skipTime? s == some []
  | some [] => true
  | some (c :: s) => c ∈ ['T', 't', ' '] && (skipTime? s).any isOffset

end TextDiagram.Toml
