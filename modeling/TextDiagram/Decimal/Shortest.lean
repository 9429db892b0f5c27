import TextDiagram.Decimal.Basic

/-!
# The shortest decimal of a binary number

A finite binary64 number stands for all numbers that round to it. Of the decimals among them the
one with the fewest digits is chosen, and of several such decimals the nearest. The decimals with
digits down to the place `10 ^ k` form a grid. Coarse grids are tried before fine ones, and on each
grid it is enough to look at the two neighbours of the number.
-/

namespace TextDiagram.Decimal

/-- The number `significand * 2 ^ exponent`. -/
structure Binary where
  significand : Nat
  exponent : Int
  /-- The next number below is nearer than the next number above. -/
  nearBelow : Bool
  deriving DecidableEq, Repr

/-- The magnitude with the given exponent field and fraction field of a finite number. -/
def Binary.ofFields (exponent fraction : Nat) : Binary :=
  if exponent = 0 then ⟨fraction, -1074, false⟩
  else ⟨Nat.pow 2 52 + fraction, (exponent : Int) - 1075, fraction = 0 && 1 < exponent⟩

/-- A binary number among the points of a decimal grid. All numbers are in one unit, in which the
points of the grid are the multiples of `step`. -/
structure Place where
  low : Nat
  value : Nat
  high : Nat
  step : Nat
  /-- Whether `low` and `high` themselves round to the number. -/
  closed : Bool

namespace Place

/-- A number on the grid with the step `10 ^ k`. -/
def ofBinary (b : Binary) (k : Int) : Place :=
  let quarter := b.exponent - 2
  let scale := Nat.pow 2 quarter.toNat * Nat.pow 10 (-k).toNat
  { low := (4 * b.significand - if b.nearBelow then 1 else 2) * scale
    value := 4 * b.significand * scale
    high := (4 * b.significand + 2) * scale
    step := Nat.pow 10 k.toNat * Nat.pow 2 (-quarter).toNat
    closed := b.significand % 2 = 0 }

/-- Whether the point number `n` of the grid rounds to the number. -/
def contains (p : Place) (n : Nat) : Bool :=
  if p.closed then p.low ≤ n * p.step && n * p.step ≤ p.high
  else p.low < n * p.step && n * p.step < p.high

/-- The nearer of the two neighbours on the grid, of those that round to the number. In a tie the
even one is taken. -/
def nearest? (p : Place) : Option Nat :=
  let below := p.value / p.step
  let toBelow := p.value - below * p.step
  let toAbove := (below + 1) * p.step - p.value
  if p.contains below then
    if p.contains (below + 1) &&
        (toAbove < toBelow || toAbove == toBelow && below % 2 == 1) then some (below + 1)
    else some below
  else if p.contains (below + 1) then some (below + 1)
  else none

end Place

/-- A power of ten that is larger than the number, but not by much. -/
def Binary.topPlace (b : Binary) : Int :=
  ((b.significand.log2 : Int) + b.exponent + 1) * 30103 / 100000 + 2

/-- Twenty places are enough to tell any two numbers apart. -/
def Binary.shortest (b : Binary) : Nat × Int :=
  ((List.range 21).findSome? fun (i : Nat) =>
    let k := b.topPlace - (i : Int)
    ((Place.ofBinary b k).nearest?).map fun n => (n, k)).getD (b.significand, 0)

/-- The shortest decimal that rounds to a finite number. -/
def ofFloat (x : Float) : Decimal :=
  let bits := x.toBits.toNat
  let exponentField := bits / Nat.pow 2 52 % Nat.pow 2 11
  let fractionField := bits % Nat.pow 2 52
  let negative := Nat.pow 2 63 ≤ bits
  if exponentField = 0 ∧ fractionField = 0 then ⟨negative, 0, 0⟩
  else
    let (coefficient, exponent) := (Binary.ofFields exponentField fractionField).shortest
    ⟨negative, coefficient, exponent⟩

/-! ### Text -/

/-- How a decimal is written: positionally as long as its point stands after more than
`lowPlaces` and at most `highPlaces` digits, and otherwise with an exponent. -/
structure Format where
  lowPlaces : Int
  highPlaces : Int

/-- From `0.00001` on and below `10 ^ 16` a decimal is written positionally. -/
def Format.positional : Format := ⟨-5, 16⟩

/-- A positional decimal always has a point with a digit on either side. -/
def text (format : Format) (d : Decimal) : String :=
  let digits := d.coefficient.repr.toList
  let point : Int := digits.length + d.exponent
  let zeros := fun n : Int => List.replicate n.toNat '0'
  let body : List Char :=
    if d.coefficient = 0 then "0.0".toList
    else if 0 ≤ d.exponent ∧ point ≤ format.highPlaces then digits ++ zeros d.exponent ++ ".0".toList
    else if 0 < point ∧ point ≤ format.highPlaces then
      digits.take point.toNat ++ '.' :: digits.drop point.toNat
    else if format.lowPlaces < point ∧ point ≤ 0 then "0.".toList ++ zeros (-point) ++ digits
    else
      let exponent := 'e' :: (point - 1).repr.toList
      match digits with
      | [d] => d :: exponent
      | d :: ds => d :: '.' :: ds ++ exponent
      | [] => exponent
  String.ofList (if d.negative then '-' :: body else body)

end TextDiagram.Decimal
