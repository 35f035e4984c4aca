import GraphSelect.Number.Decimal

/-!
Binary floating-point numbers of double precision, read from decimal text by rounding to the
nearest and written with the fewest digits that read back.

A finite number is significand times two to the power of the exponent. The significand is less
than 2⁵³ and the exponent at least −1074; unless the exponent is that least one, the significand
is at least 2⁵². So every number has one form.
-/

namespace GraphSelect

open Text

inductive Double where
  | finite (negative : Bool) (significand : Nat) (exponent : Int)
  | infinite (negative : Bool)
  | nan
  deriving DecidableEq, Inhabited

namespace Double

def leastExponent : Int := -1074
def greatestExponent : Int := 971

def zero (negative : Bool) : Double :=
  .finite negative 0 leastExponent

/-- The whole number nearest to a quotient, a half to the even one. -/
def roundQuotient (num den : Nat) : Nat :=
  let q := num / den
  let twice := 2 * (num % den)
  if den < twice ∨ (twice = den ∧ q % 2 = 1) then q + 1 else q

/-- A quotient multiplied by two to the power `-e`. -/
def scaled (num den : Nat) (e : Int) : Nat × Nat :=
  if 0 ≤ e then (num, den * Nat.pow 2 e.toNat) else (num * Nat.pow 2 (-e).toNat, den)

/-- The exponent of the greatest power of two that is at most a positive quotient. -/
def magnitude (num den : Nat) : Int :=
  let estimate : Int := (num.log2 : Int) - den.log2
  let (n, d) := scaled num den estimate
  if d ≤ n then estimate else estimate - 1

/-- The double nearest to a quotient. -/
def ofQuotient (negative : Bool) (num den : Nat) : Double :=
  if num = 0 then zero negative
  else
    let e := max (magnitude num den - 52) leastExponent
    let (n, d) := scaled num den e
    let m := roundQuotient n d
    let (m, e) := if m = Nat.pow 2 53 then (Nat.pow 2 52, e + 1) else (m, e)
    if greatestExponent < e then .infinite negative else .finite negative m e

/-- The double nearest to a whole number times a power of ten. Beyond four hundred places the
result is an infinity or a zero, whatever the digits. -/
def ofDecimal (negative : Bool) (coefficient : Nat) (exponent : Int) : Double :=
  let point := digitCount coefficient + exponent
  if coefficient = 0 ∨ point < -400 then zero negative
  else if 400 < point then .infinite negative
  else if 0 ≤ exponent then ofQuotient negative (coefficient * Nat.pow 10 exponent.toNat) 1
  else ofQuotient negative coefficient (Nat.pow 10 (-exponent).toNat)

/-- Reads a number that stands alone. -/
def ofChars? (cs : List Char) : Option Double :=
  let (negative, cs) := splitSign cs
  match Decimal.parts? cs with
  | some p => some (ofDecimal negative p.coefficient p.scale)
  | none =>
    let word := lower (String.ofList cs)
    if word = "inf" ∨ word = "infinity" then some (.infinite negative)
    else if word = "nan" then some .nan
    else none

def read? (s : String) : Option Double :=
  (bare? s.toList).bind ofChars?

def negate : Double → Double
  | .finite s m e => .finite (!s) m e
  | .infinite s => .infinite (!s)
  | .nan => .nan

/-- The numbers that round to a given one lie between two bounds, over a common denominator with
the number itself. The bounds belong to them if the significand is even. -/
structure Interval where
  low : Nat
  value : Nat
  high : Nat
  den : Nat
  closed : Bool

/-- The interval of a positive number. Below a power of two the neighbour is half as far. -/
def interval (m : Nat) (e : Int) : Interval :=
  let below := if m = Nat.pow 2 52 ∧ leastExponent < e then 1 else 2
  let unit := Nat.pow 2 (e - 2).toNat
  { low := (4 * m - below) * unit
    value := 4 * m * unit
    high := (4 * m + 2) * unit
    den := Nat.pow 2 (2 - e).toNat
    closed := m % 2 = 0 }

/-- Whether `n` times ten to the power `k` lies in an interval. -/
def Interval.contains (i : Interval) (n : Nat) (k : Int) : Bool :=
  let p := n * Nat.pow 10 k.toNat * i.den
  let scale := Nat.pow 10 (-k).toNat
  if i.closed then i.low * scale ≤ p && p ≤ i.high * scale
  else i.low * scale < p && p < i.high * scale

/-- The value of an interval over ten to the power `k`, as a quotient. -/
def Interval.over (i : Interval) (k : Int) : Nat × Nat :=
  (i.value * Nat.pow 10 (-k).toNat, i.den * Nat.pow 10 k.toNat)

/-- The number of digits before the decimal point of a positive number; if there are none, minus
the number of zeros after it. -/
def Interval.point (i : Interval) : Int :=
  let estimate : Int :=
    if i.den ≤ i.value then digitCount (i.value / i.den) else 1 - digitCount (i.den / i.value)
  let (n, d) := i.over estimate
  if d ≤ n then estimate + 1 else estimate

/-- The multiple of ten to the power `k` in the interval that is nearest to its value. -/
def Interval.nearest? (i : Interval) (k : Int) : Option Nat :=
  let (n, d) := i.over k
  let a := n / d
  match i.contains a k, i.contains (a + 1) k with
  | true, true => some (roundQuotient n d)
  | true, false => some a
  | false, true => some (a + 1)
  | false, false => none

/-- The coarsest power of ten with a multiple in the interval, tried from `digits` significant
digits on, and that multiple. -/
def Interval.shortest (i : Interval) (point : Int) : Nat → Nat → Nat × Int
  | 0, digits =>
    let (n, d) := i.over (point - digits)
    (roundQuotient n d, point - digits)
  | more + 1, digits =>
    match i.nearest? (point - digits) with
    | some n => (n, point - digits)
    | none => i.shortest point more (digits + 1)

def layout : Layout := ⟨'e', 2, true⟩

/-- Drops the zeros at the end of a row of digits. -/
def trimZeros (digits : List Char) : List Char :=
  (digits.reverse.dropWhile (· = '0')).reverse

/-- A number is written positionally from 10⁻⁴ to below 10¹⁶. Seventeen digits always suffice. -/
def chars : Double → List Char
  | .finite s 0 _ => Decimal.sign s ++ ['0', '.', '0']
  | .finite s m e =>
    let i := interval m e
    let (n, k) := i.shortest i.point 16 1
    let digits := digitsOf n
    let point := digits.length + k
    Decimal.sign s ++
      if -4 < point ∧ point ≤ 16 then layout.positional (trimZeros digits) point
      else layout.scientific (trimZeros digits) point
  | .infinite s => Decimal.sign s ++ ['i', 'n', 'f']
  | .nan => ['n', 'a', 'n']

def text (x : Double) : String :=
  String.ofList x.chars

end Double

end GraphSelect
