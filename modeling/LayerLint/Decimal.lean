import LayerLint.Text
import LayerLint.Decimal.Fraction

/-!
# Decimal text of numbers

Whole numbers of 64 bits are read from digits, with a `+` allowed in front. Doubles are written with
a fixed number of places, a half going to the even neighbour.
-/

namespace LayerLint.Decimal

def isDigit (c : Char) : Bool := '0' ≤ c && c ≤ '9'

/-- The number that a text of digits denotes. -/
def value (digits : Text) : Nat := digits.foldl (fun n c => 10 * n + (c.toNat - '0'.toNat)) 0

/-- The text without one `+` in front. -/
def withoutPlus : Text → Text
  | '+' :: digits => digits
  | digits => digits

/-- Reads a number of 64 bits: digits only, perhaps a `+` in front. -/
def word64? (t : Text) : Option UInt64 :=
  let digits := withoutPlus t
  if !digits.isEmpty && digits.all isDigit && value digits < UInt64.size then
    some (UInt64.ofNat (value digits))
  else none

/-- The digits of `n` with a point in front of the last `places` of them. -/
def withPoint (n places : Nat) : Text :=
  let fraction := Text.ofNat (n % Nat.pow 10 places)
  Text.ofNat (n / Nat.pow 10 places)
    ++ (if places = 0 then []
      else '.' :: (List.replicate (places - fraction.length) '0' ++ fraction))

/-- A finite double without its sign, with a fixed number of places. -/
def fixedMagnitude (places : Nat) (x : Float) : Text :=
  let f := Fraction.ofFloat x
  withPoint (Fraction.roundHalfEven ⟨f.num * Nat.pow 10 places, f.den⟩) places

def sign (x : Float) : Text := if Fraction.isNegative x then ['-'] else []

/-- A double with a fixed number of places. -/
def fixed (places : Nat) (x : Float) : Text :=
  if Fraction.isFinite x then sign x ++ fixedMagnitude places x
  else if Fraction.fractionField x = 0 then sign x ++ "inf".toList
  else "NaN"

end LayerLint.Decimal
