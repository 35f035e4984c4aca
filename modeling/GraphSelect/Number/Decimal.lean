import GraphSelect.Number.Layout
import GraphSelect.Text.Case
import GraphSelect.Text.Numeral

/-!
Decimal numbers with the digits they were written with: 1.50 and 1.5 are different.

A number is kept exactly however many digits it has. Only negation rounds, to 28 significant
digits with a half going to the even neighbour, and to a place that is not too far behind the
point; and the negation of a zero is positive. A negation that would leave more than a million
digits before the point fails, so what is given for it counts only if it is in range.
-/

namespace GraphSelect

open Text

/-- The finite numbers are coefficient times ten to the power of the exponent. -/
inductive Decimal where
  | finite (negative : Bool) (coefficient : Nat) (exponent : Int)
  | infinite (negative : Bool)
  | nan (negative signaling : Bool) (payload : Nat)
  deriving DecidableEq, Inhabited

namespace Decimal

/-- The number of digits that an operation keeps. -/
def precision : Nat := 28

/-- `n` divided by ten to the power `k`, to the nearest whole number, a half to the even one. -/
def roundTens (n k : Nat) : Nat :=
  let q := n / Nat.pow 10 k
  let twice := 2 * (n % Nat.pow 10 k)
  if Nat.pow 10 k < twice ∨ (twice = Nat.pow 10 k ∧ q % 2 = 1) then q + 1 else q

/-- The exponent of the last place that an operation keeps. -/
def leastExponent : Int := -1000026

/-- The greatest exponent that an operation leaves to a zero. -/
def greatestZeroExponent : Int := 999999

/-- The number with at most `precision` significant digits and none behind the last place. Of a
number that ends before its first digit no more than that has to be known. -/
def rounded (negative : Bool) (coefficient : Nat) (exponent : Int) : Decimal :=
  let count := digitCount coefficient
  let k := max (count - precision) (leastExponent - exponent).toNat
  if k = 0 then .finite negative coefficient exponent
  else
    let c := roundTens coefficient (min k (count + 1))
    if c = Nat.pow 10 precision then .finite negative (c / 10) (exponent + k + 1)
    else .finite negative c (exponent + k)

/-- What an operation can leave: a number with at most a million digits before the point, or
something that does not signal. An operation that would leave anything else fails. -/
def IsInRange : Decimal → Prop
  | .finite _ c e => digitCount c + e ≤ 1000000
  | .infinite _ => True
  | .nan _ signaling _ => signaling = false

/-- The negation of a number. Where it is not in range there is none, since the operation fails. -/
def negate : Decimal → Decimal
  | .finite _ 0 e => .finite false 0 (max leastExponent (min e greatestZeroExponent))
  | .finite s c e => rounded (!s) c e
  | .infinite s => .infinite (!s)
  | d => d

def layout : Layout := ⟨'E', 1, false⟩

def sign (negative : Bool) : List Char :=
  if negative then ['-'] else []

/-- A number is written positionally if its exponent is not positive and at most five zeros follow
the point. -/
def chars : Decimal → List Char
  | .finite s c e =>
    let digits := digitsOf c
    let point := digits.length + e
    sign s ++
      if e ≤ 0 ∧ -6 < point then layout.positional digits point else layout.scientific digits point
  | .infinite s => sign s ++ "Infinity".toList
  | .nan s signaling payload =>
    sign s ++ (if signaling then ['s'] else []) ++ "NaN".toList ++
      if payload = 0 then [] else digitsOf payload

def text (d : Decimal) : String :=
  String.ofList d.chars

/-- The parts of a number in writing: its digits before and after the point, and its exponent. -/
structure Parts where
  whole : List Char
  fraction : List Char
  exponent : Int

/-- Splits digits with an optional point and an optional power of ten. -/
def parts? (cs : List Char) : Option Parts :=
  let whole := cs.takeWhile isDigit
  let (fraction, rest) := match cs.dropWhile isDigit with
    | '.' :: r => (r.takeWhile isDigit, r.dropWhile isDigit)
    | r => ([], r)
  if whole.isEmpty && fraction.isEmpty then none
  else match rest with
    | [] => some ⟨whole, fraction, 0⟩
    | e :: power =>
      let digits := (splitSign power).2
      if (e = 'e' ∨ e = 'E') ∧ digits ≠ [] ∧ digits.all isDigit then
        some ⟨whole, fraction, intOfDigits power⟩
      else none

namespace Parts

/-- All digits as one whole number. -/
def coefficient (p : Parts) : Nat :=
  natOfDigits (p.whole ++ p.fraction)

/-- The power of ten that goes with the coefficient. -/
def scale (p : Parts) : Int :=
  p.exponent - p.fraction.length

end Parts

/-- The words for what is not a finite number. -/
def special? (negative : Bool) (word : String) : Option Decimal :=
  if word = "inf" ∨ word = "infinity" then some (.infinite negative)
  else
    let (signaling, rest) := match word.toList with
      | 's' :: r => (true, r)
      | r => (false, r)
    match rest with
    | 'n' :: 'a' :: 'n' :: payload =>
      if payload.all isDigit then some (.nan negative signaling (natOfDigits payload)) else none
    | _ => none

/-- The characters of a number without the blanks around them and without underscores, which may
stand anywhere. -/
def bare (cs : List Char) : List Char :=
  (trim isBlank cs).filter (· != '_')

/-- Reads a number, keeping its digits and exponent as written. -/
def read? (s : String) : Option Decimal :=
  let (negative, cs) := splitSign (bare s.toList)
  match parts? cs with
  | some p => some (.finite negative p.coefficient p.scale)
  | none => special? negative (lower (String.ofList cs))

end Decimal

end GraphSelect
