import GraphSelect.Number.Double

/-!
The order of numbers, whatever their kind.

A quantity is a fraction times a power of ten. Two of them are compared exactly, and a power of ten
that outweighs the other side is cut short, so that comparing takes no more digits than the two
sides have.
-/

namespace GraphSelect

inductive Quantity where
  | finite (num : Int) (den : Nat) (tens : Int)
  | infinite (negative : Bool)
  deriving Inhabited

namespace Quantity

def ofInt (n : Int) : Quantity :=
  .finite n 1 0

def signed (negative : Bool) (n : Nat) : Int :=
  if negative then -n else n

/-- The number that a decimal denotes. -/
def ofDecimal? : Decimal → Option Quantity
  | .finite s c e => some (.finite (signed s c) 1 e)
  | .infinite s => some (.infinite s)
  | .nan _ _ _ => none

/-- The number that a double denotes. -/
def ofDouble? : Double → Option Quantity
  | .finite s m e =>
    some (.finite (signed s m * (Nat.pow 2 e.toNat : Nat)) (Nat.pow 2 (-e).toNat) 0)
  | .infinite s => some (.infinite s)
  | .nan => none

/-- A number of digits that suffices for a whole number. -/
def size (n : Int) : Nat :=
  n.natAbs.log2 + 1

theorem natAbs_lt_pow {n : Int} {k : Nat} (h : size n ≤ k) : n.natAbs < Nat.pow 10 k :=
  calc n.natAbs < 2 ^ size n := Nat.lt_log2_self
    _ ≤ 10 ^ size n := Nat.pow_le_pow_left (by decide) _
    _ ≤ 10 ^ k := Nat.pow_le_pow_right (by decide) h

/-- A power of ten greater than `n` outweighs it, whatever it is multiplied with. -/
theorem mul_pow_outweighs {m n : Int} {k : Nat} (h : size n ≤ k) :
    (0 < m → n < m * (Nat.pow 10 k : Nat)) ∧ (m < 0 → m * (Nat.pow 10 k : Nat) < n) := by
  have hn := natAbs_lt_pow h
  generalize Nat.pow 10 k = p at hn
  constructor
  · intro hm
    have := Int.mul_le_mul_of_nonneg_right (show 1 ≤ m by omega) (show (0 : Int) ≤ p by omega)
    omega
  · intro hm
    have := Int.mul_le_mul_of_nonneg_right (show m ≤ -1 by omega) (show (0 : Int) ≤ p by omega)
    omega

/-- Cutting a power of ten short at the size of `n` leaves the comparison with `n` as it is. -/
theorem compare_cut (m n : Int) (k : Nat) :
    compare (m * (Nat.pow 10 (min k (size n)) : Nat)) n = compare (m * (Nat.pow 10 k : Nat)) n := by
  by_cases hk : k ≤ size n
  · rw [Nat.min_eq_left hk]
  · have short := mul_pow_outweighs (m := m) (Nat.le_refl (size n))
    have long := mul_pow_outweighs (m := m) (Nat.le_of_not_le hk)
    rw [Nat.min_eq_right (by omega)]
    rcases Int.lt_trichotomy m 0 with hm | rfl | hm
    · rw [Int.compare_eq_lt.2 (short.2 hm), Int.compare_eq_lt.2 (long.2 hm)]
    · simp
    · rw [Int.compare_eq_gt.2 (short.1 hm), Int.compare_eq_gt.2 (long.1 hm)]

/-- How the first of two quantities stands to the second. -/
def order : Quantity → Quantity → Ordering
  | .finite a b k, .finite c d l =>
    let left := a * d
    let right := c * b
    if l ≤ k then
      compare (left * (Nat.pow 10 (min (k - l).toNat (size right)) : Nat)) right
    else
      compare left (right * (Nat.pow 10 (min (l - k).toNat (size left)) : Nat))
  | .infinite s, .infinite t => if s = t then .eq else if s then .lt else .gt
  | .infinite s, .finite _ _ _ => if s then .lt else .gt
  | .finite _ _ _, .infinite t => if t then .gt else .lt

def equal (x y : Quantity) : Bool :=
  x.order y = .eq

def less (x y : Quantity) : Bool :=
  x.order y = .lt

/-- Fractions compare as they do with both denominators and the smaller power of ten cleared. -/
theorem order_finite (a c : Int) (b d : Nat) (k l : Int) :
    order (.finite a b k) (.finite c d l) =
      compare (a * d * (Nat.pow 10 (k - l).toNat : Nat))
        (c * b * (Nat.pow 10 (l - k).toNat : Nat)) := by
  by_cases h : l ≤ k
  · have : (l - k).toNat = 0 := by omega
    simp only [order, h, if_true, compare_cut, this]
    simp
  · have : (k - l).toNat = 0 := by omega
    simp only [order, h, if_false, this]
    rw [Std.OrientedOrd.eq_swap, compare_cut, ← Std.OrientedOrd.eq_swap]
    simp

end Quantity

end GraphSelect
