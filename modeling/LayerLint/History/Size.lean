import LayerLint.Decimal
import LayerLint.Text.Blank

/-!
# Layer sizes

A size is a number and a unit: digits, perhaps a point and more digits, then perhaps one of `k`,
`K`, `M`, `G`, `T`, perhaps an `i`, and `B`, with blanks allowed at both ends and in front of the
unit. Units are powers of a thousand, with an `i` too. Sizes are written with one place in the
largest of `GB`, `MB` and `kB` that they reach.
-/

namespace LayerLint.History

/-- The number of a size: its digits before and after the point. -/
structure Amount where
  whole : Text
  places : Text
  deriving DecidableEq, Repr

/-- The amount as a double. -/
def Amount.value (a : Amount) : Float :=
  Float.ofScientific (Decimal.value (a.whole ++ a.places)) true a.places.length

/-- The amount that the text starts with, and what follows it. -/
def amount? (t : Text) : Option (Amount × Text) :=
  let whole := t.takeWhile Decimal.isDigit
  let rest := t.dropWhile Decimal.isDigit
  if whole = [] then none
  else
    match rest with
    | '.' :: fraction =>
      let places := fraction.takeWhile Decimal.isDigit
      if places = [] then none else some (⟨whole, places⟩, fraction.dropWhile Decimal.isDigit)
    | _ => some (⟨whole, []⟩, rest)

/-- The number of bytes that a unit letter stands for. -/
def multiplier? : Char → Option Float
  | 'k' | 'K' => some 1e3
  | 'M' => some 1e6
  | 'G' => some 1e9
  | 'T' => some 1e12
  | _ => none

/-- Whether the text is a `B`, perhaps with an `i` in front. -/
def isByteMark (t : Text) : Bool := t = ['B'] || t = ['i', 'B']

/-- The multiplier of a unit that is the whole text. -/
def unit? (t : Text) : Option Float :=
  if isByteMark t then some 1.0
  else
    match t with
    | [] => none
    | c :: rest => if isByteMark rest then multiplier? c else none

/-- The nearest number of bytes, when it fits 64 bits; a half goes up. -/
def toBytes? (x : Float) : Option UInt64 :=
  let n := (Fraction.ofFloat x).roundHalfUp
  if Fraction.isFinite x && n < UInt64.size then some (UInt64.ofNat n) else none

def parseSize? (t : Text) : Option UInt64 := do
  let (amount, rest) ← amount? t.trim
  let multiplier ← unit? rest.trimStart
  toBytes? (amount.value * multiplier)

/-- The units that a size is written in, from the largest. -/
def units : List (Text × Float) := [("GB", 1e9), ("MB", 1e6), ("kB", 1e3)]

def formatBytes (bytes : UInt64) : Text :=
  match units.find? fun (_, scale) => scale ≤ bytes.toFloat with
  | some (unit, scale) => Decimal.fixed 1 (bytes.toFloat / scale) ++ unit
  | none => Text.ofNat bytes.toNat ++ ['B']

end LayerLint.History
