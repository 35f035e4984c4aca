import GraphSelect.Text.Digit

/-!
How the digits of a number are laid out: positional, with the point among them, or scientific,
with the point after the first and a power of ten behind.

A number is given by its digits and by `point`, the place of the decimal point counted from the
first digit: the number is 0.d₁d₂d₃… times ten to the power `point`.
-/

namespace GraphSelect

open Text

/-- The choices of a number format. -/
structure Layout where
  /-- What stands before the power of ten. -/
  mark : Char
  /-- The least number of digits of the power of ten. -/
  exponentDigits : Nat
  /-- Whether a whole number in positional form ends in a point and a zero. -/
  keepsFraction : Bool

namespace Layout

def positional (l : Layout) (digits : List Char) (point : Int) : List Char :=
  if point ≤ 0 then
    '0' :: '.' :: List.replicate (-point).toNat '0' ++ digits
  else if point.toNat < digits.length then
    digits.take point.toNat ++ '.' :: digits.drop point.toNat
  else
    digits ++ List.replicate (point.toNat - digits.length) '0' ++
      if l.keepsFraction then ['.', '0'] else []

/-- A power of ten always carries its sign. -/
def power (l : Layout) (n : Int) : List Char :=
  let digits := digitsOf n.natAbs
  l.mark :: (if n < 0 then '-' else '+') ::
    (List.replicate (l.exponentDigits - digits.length) '0' ++ digits)

def scientific (l : Layout) (digits : List Char) (point : Int) : List Char :=
  (match digits with
    | [] => []
    | [d] => [d]
    | d :: ds => d :: '.' :: ds) ++ l.power (point - 1)

end Layout

end GraphSelect
