import LayerLint.Decimal
import LayerLint.Toml.Strings
import LayerLint.Toml.Value

/-!
# Plain values of TOML

Booleans, integers, floating-point numbers, dates and times. Numbers may have underscores between
digits. Integers fit 128 bits, and floating-point numbers do not exceed the largest double.
-/

namespace LayerLint.Toml

/-! ## Numbers -/

/-- The digits without the underscores; each underscore stands between two digits. -/
def digits? (isDigit : Char → Bool) (t : Text) : Option Text :=
  let groups := t.splitOnP (· = '_')
  if groups.all fun g => !g.isEmpty && g.all isDigit then some groups.flatten else none

/-- Decimal digits without a zero in front of others. -/
def plainDigits? (t : Text) : Option Text :=
  (digits? Decimal.isDigit t).filter fun ds => ds.head? ≠ some '0' || ds.length = 1

/-- Whether a minus stands in front, and the text without the sign. -/
def sign : Text → Bool × Text
  | '-' :: rest => (true, rest)
  | '+' :: rest => (false, rest)
  | t => (false, t)

/-- An integer within the signed and unsigned ranges of 128 bits. -/
def inRange (n : Int) : Bool := -Int.pow 2 127 ≤ n && n < Int.pow 2 128

def decimal? (t : Text) : Option Value := do
  let (negative, magnitude) := sign t
  let n : Int := Decimal.value (← plainDigits? magnitude)
  let n := if negative then -n else n
  if inRange n then some (.integer n) else none

/-- An integer in base sixteen, eight or two. -/
def based? (t : Text) : Option Value := do
  let (base, isDigit, rest) ← match t with
    | '0' :: 'x' :: rest => some (16, fun c => (Json.hexDigit? c).isSome, rest)
    | '0' :: 'o' :: rest => some (8, fun c => '0' ≤ c && c ≤ '7', rest)
    | '0' :: 'b' :: rest => some (2, fun c => c = '0' || c = '1', rest)
    | _ => none
  let ds ← digits? isDigit rest
  let n : Int := ds.foldl (fun n c => base * n + (Json.hexDigit? c).getD 0) 0
  if inRange n then some (.integer n) else none

/-- The largest number that does not round to infinity, and one more. -/
def overflowBound : Nat := Nat.pow 2 1024 - Nat.pow 2 970

/-- Whether `n * 10 ^ e` is too large for a double. -/
def overflows (n : Nat) (e : Int) : Bool :=
  let size : Int := (Text.ofNat n).length + e
  if n = 0 ∨ size < 300 then false
  else if 320 < size then true
  else if 0 ≤ e then overflowBound ≤ n * Nat.pow 10 e.toNat
  else overflowBound * Nat.pow 10 (-e).toNat ≤ n

/-- The number behind an `e`. -/
def exponent? (t : Text) : Option Int := do
  let (negative, magnitude) := sign t
  let n : Int := Decimal.value (← digits? Decimal.isDigit magnitude)
  some (if negative then -n else n)

/-- A number with a fraction, an exponent or both. -/
def float? (t : Text) : Option Value := do
  let (_, magnitude) := sign t
  let isMark := fun (c : Char) => c = 'e' || c = 'E'
  if magnitude = "inf" || magnitude = "nan" then some (.float t)
  else if magnitude.all fun c => !isMark c && c ≠ '.' then none
  else
    let mantissa := magnitude.takeWhile fun c => !isMark c
    let e ← match magnitude.dropWhile fun c => !isMark c with
      | [] => some 0
      | _ :: written => exponent? written
    let whole ← plainDigits? (mantissa.takeWhile (· ≠ '.'))
    let places ← match mantissa.dropWhile (· ≠ '.') with
      | [] => some []
      | _ :: written => digits? Decimal.isDigit written
    if overflows (Decimal.value (whole ++ places)) (e - places.length) then none
    else some (.float t)

/-! ## Dates and times -/

/-- The number of two digits. -/
def two? : Text → Option Nat
  | [a, b] => if Decimal.isDigit a && Decimal.isDigit b then some (Decimal.value [a, b]) else none
  | _ => none

def isLeapYear (year : Nat) : Bool := (year % 4 = 0 && year % 100 ≠ 0) || year % 400 = 0

def daysIn (year month : Nat) : Nat :=
  if month = 2 then (if isLeapYear year then 29 else 28)
  else if month = 4 ∨ month = 6 ∨ month = 9 ∨ month = 11 then 30
  else 31

/-- A day as `2000-01-31`. -/
def isDate (t : Text) : Bool :=
  match t with
  | [y1, y2, y3, y4, '-', m1, m2, '-', d1, d2] =>
    let year := Decimal.value [y1, y2, y3, y4]
    [y1, y2, y3, y4].all Decimal.isDigit
      && (two? [m1, m2]).any fun month => 1 ≤ month && month ≤ 12
        && (two? [d1, d2]).any fun day => 1 ≤ day && day ≤ daysIn year month
  | _ => false

/-- Hours and minutes as `23:59`. -/
def isClock (t : Text) : Bool :=
  match t with
  | [h1, h2, ':', m1, m2] =>
    (two? [h1, h2]).any (· ≤ 23) && (two? [m1, m2]).any (· ≤ 59)
  | _ => false

/-- Seconds as `:59` or `:59.25`; a leap second counts. -/
def isSeconds (t : Text) : Bool :=
  match t with
  | [':', s1, s2] => (two? [s1, s2]).any (· ≤ 60)
  | ':' :: s1 :: s2 :: '.' :: places =>
    (two? [s1, s2]).any (· ≤ 60) && !places.isEmpty && places.all Decimal.isDigit
  | _ => false

def isTime (t : Text) : Bool := isClock (t.take 5) && (t.length = 5 || isSeconds (t.drop 5))

/-- The offset from universal time: `Z`, or a sign, hours and minutes. -/
def isOffset (t : Text) : Bool :=
  match t with
  | ['Z'] | ['z'] => true
  | c :: clock => (c = '+' || c = '-') && isClock clock
  | [] => false

def isOffsetMark (c : Char) : Bool := c = 'Z' || c = 'z' || c = '+' || c = '-'

/-- A time, perhaps with an offset. -/
def isZonedTime (t : Text) : Bool :=
  isTime (t.takeWhile fun c => !isOffsetMark c)
    && (t.all (fun c => !isOffsetMark c) || isOffset (t.dropWhile fun c => !isOffsetMark c))

/-- A date, a time, or a date and a time with a `T` or a space between them. -/
def isMoment (t : Text) : Bool :=
  isDate t || isTime t
    || match t.drop 10 with
      | c :: time => (c = 'T' || c = 't' || c = ' ') && isDate (t.take 10) && isZonedTime time
      | [] => false

/-! ## Reading -/

def isPlain (c : Char) : Bool := c.isAlphanum || c = '_' || c = '+' || c = '-' || c = '.' || c = ':'

/-- The longest text that a plain value can be, and what follows it. A time may follow a date behind
one space. -/
def plainText (t : Text) : Text × Text :=
  let first := t.takeWhile isPlain
  let rest := t.dropWhile isPlain
  match rest with
  | ' ' :: c :: more =>
    if isDate first && Decimal.isDigit c then
      (first ++ ' ' :: (c :: more).takeWhile isPlain, (c :: more).dropWhile isPlain)
    else (first, rest)
  | _ => (first, rest)

def plainValue? (t : Text) : Option Value :=
  if t = "true" then some (.boolean true)
  else if t = "false" then some (.boolean false)
  else if isMoment t then some (.moment t)
  else ((decimal? t).or (based? t)).or (float? t)

/-- A plain value, and what follows it. -/
def plain? (t : Text) : Option (Value × Text) :=
  let (written, rest) := plainText t
  (plainValue? written).map (·, rest)

end LayerLint.Toml
