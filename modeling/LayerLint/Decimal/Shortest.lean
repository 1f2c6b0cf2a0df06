import LayerLint.Decimal

/-!
# The shortest decimal that reads back

Of the decimals that a reader rounds to a given double, the one with the fewest digits is written;
among those of that length, the one nearest to the double. The search goes from coarse decimal
grids to fine ones and looks at the two grid points around the value.
-/

namespace LayerLint.Decimal

/-- The decimals that round to a double: from `low / den` to `high / den`, with both ends when
`closed`. -/
structure Basin where
  low : Nat
  value : Nat
  high : Nat
  den : Nat
  closed : Bool

/-- The basin of a finite double. Below a power of two the doubles lie twice as dense. -/
def Basin.ofFloat (x : Float) : Basin :=
  let m := Fraction.mantissa x
  let e := Fraction.exponent x
  let below := if m = Nat.pow 2 52 && 1 < e then 1 else 2
  let unit := Fraction.scaled 1 e 1077
  { low := (4 * m - below) * unit.num
    value := 4 * m * unit.num
    high := (4 * m + 2) * unit.num
    den := unit.den
    closed := m % 2 = 0 }

/-- Whether `n / grid` lies in the basin. -/
def Basin.contains (b : Basin) (n grid : Nat) : Bool :=
  if b.closed then b.low * grid ≤ n * b.den && n * b.den ≤ b.high * grid
  else b.low * grid < n * b.den && n * b.den < b.high * grid

/-- The point of the grid with `grid` points to the unit that lies in the basin nearest to its
value. -/
def Basin.nearest? (b : Basin) (grid : Nat) : Option Nat :=
  let below := b.value * grid / b.den
  let toBelow := b.value * grid - below * b.den
  let toAbove := (below + 1) * b.den - b.value * grid
  let first :=
    if toBelow < toAbove || (toBelow = toAbove && below % 2 = 0) then below else below + 1
  let second := if first = below then below + 1 else below
  if b.contains first grid then some first
  else if b.contains second grid then some second
  else none

/-- The first hit on grids of tens, hundreds, and so on, from the coarsest on. -/
def wholeHit? (b : Basin) : (zeros : Nat) → Option Nat
  | 0 => none
  | zeros + 1 =>
    match Basin.nearest? { b with den := b.den * Nat.pow 10 (zeros + 1) } 1 with
    | some n => some (n * Nat.pow 10 (zeros + 1))
    | none => wholeHit? b zeros

/-- The first hit on grids of `places` decimal places or more. -/
def placedHit? (b : Basin) : (fuel places : Nat) → Option (Nat × Nat)
  | 0, _ => none
  | fuel + 1, places =>
    match b.nearest? (Nat.pow 10 places) with
    | some n => some (n, places)
    | none => placedHit? b fuel (places + 1)

/-- The most decimal places that the shortest decimal of a double can need. -/
def maxPlaces : Nat := 343

/-- The shortest decimal of a finite double, with at least one place. -/
def shortest (x : Float) : Text :=
  let b := Basin.ofFloat x
  match wholeHit? b (Text.ofNat (b.value / b.den)).length with
  | some n => withPoint (n * 10) 1
  | none =>
    match placedHit? b maxPlaces 0 with
    | some (n, 0) => withPoint (n * 10) 1
    | some (n, places) => withPoint n places
    | none => []

end LayerLint.Decimal
