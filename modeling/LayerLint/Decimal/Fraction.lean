/-!
# The exact value of a double

A finite double is a whole number times a power of two, so it is a fraction of natural numbers
once the sign is left aside.
-/

namespace LayerLint

structure Fraction where
  num : Nat
  den : Nat
  deriving DecidableEq, Repr

namespace Fraction

/-- The exponent field of a double. -/
def exponentField (x : Float) : Nat := x.toBits.toNat / Nat.pow 2 52 % Nat.pow 2 11

/-- The fraction field of a double. -/
def fractionField (x : Float) : Nat := x.toBits.toNat % Nat.pow 2 52

def isFinite (x : Float) : Bool := exponentField x != 2047

/-- Whether the sign bit of a double is set. -/
def isNegative (x : Float) : Bool := Nat.pow 2 63 ≤ x.toBits.toNat

/-- The whole number `m` of the value `m * 2 ^ (e - 1075)`. -/
def mantissa (x : Float) : Nat :=
  if exponentField x = 0 then fractionField x else Nat.pow 2 52 + fractionField x

/-- The exponent `e` of the value `m * 2 ^ (e - 1075)`. -/
def exponent (x : Float) : Nat := max 1 (exponentField x)

/-- The fraction `n * 2 ^ (e - bias)`. -/
def scaled (n e bias : Nat) : Fraction :=
  if bias ≤ e then ⟨n * Nat.pow 2 (e - bias), 1⟩ else ⟨n, Nat.pow 2 (bias - e)⟩

theorem den_scaled_pos (n e bias : Nat) : 0 < (scaled n e bias).den := by
  unfold scaled
  split
  · exact Nat.one_pos
  · exact Nat.pow_pos Nat.two_pos

/-- The value of a finite double without its sign. -/
def ofFloat (x : Float) : Fraction := scaled (mantissa x) (exponent x) 1075

/-- The nearest whole number; a half goes to the even neighbour. -/
def roundHalfEven (f : Fraction) : Nat :=
  let floor := f.num / f.den
  let twice := 2 * (f.num % f.den)
  if twice < f.den || (twice = f.den && floor % 2 = 0) then floor else floor + 1

/-- The nearest whole number; a half goes up. -/
def roundHalfUp (f : Fraction) : Nat :=
  if 2 * (f.num % f.den) < f.den then f.num / f.den else f.num / f.den + 1

end Fraction

end LayerLint
