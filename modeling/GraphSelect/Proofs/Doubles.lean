import GraphSelect.Proofs.NumberTexts
import GraphSelect.Scalar
import Mathlib.Algebra.Group.Nat.Defs

/-!
Doubles that denote the same number.

A number has many forms as a whole number times a power of two, and one of them is a double: that
with as many digits as fit, or with the least exponent if it is too small for that. So two doubles
that denote the same number are the same, except that there are two zeros.
-/

namespace GraphSelect.Double

/-- The form that a double has: the significand fills its digits, unless the exponent is the least. -/
def IsCanonical : Double → Prop
  | .finite _ m e => m < 2 ^ 53 ∧ leastExponent ≤ e ∧ (2 ^ 52 ≤ m ∨ e = leastExponent)
  | .infinite _ | .nan => True

instance : DecidablePred IsCanonical := fun x => by
  cases x <;> unfold IsCanonical <;> infer_instance

variable {m m' : Nat} {e e' : Int} {s s' : Bool}

/-- A form with a greater exponent has no smaller significand, so it does not fit. -/
lemma exponent_le (hm : m < 2 ^ 53) (hm' : 2 ^ 52 ≤ m' ∨ e' = leastExponent)
    (he : leastExponent ≤ e)
    (h : m * 2 ^ (e.toNat + (-e').toNat) = m' * 2 ^ (e'.toNat + (-e).toNat)) : e' ≤ e := by
  by_contra hlt
  have hlarge : 2 ^ 52 ≤ m' := by
    rcases hm' with hm' | rfl
    · exact hm'
    · omega
  obtain ⟨k, hk⟩ : ∃ k : Nat, e'.toNat + (-e).toNat = (k + 1) + (e.toNat + (-e').toNat) :=
    ⟨(e' - e).toNat - 1, by omega⟩
  rw [hk, Nat.pow_add 2 (k + 1), ← Nat.mul_assoc] at h
  have hsignificand : m = m' * 2 ^ (k + 1) := Nat.eq_of_mul_eq_mul_right (Nat.two_pow_pos _) h
  have hdouble : 2 ^ 52 * 2 ≤ m := by
    rw [hsignificand]
    exact Nat.mul_le_mul hlarge (Nat.le_self_pow (by omega) 2)
  omega

lemma signed_injective (h : Quantity.signed s m = Quantity.signed s' m') :
    m = m' ∧ (s = s' ∨ m = 0) := by
  cases s <;> cases s' <;> simp only [Quantity.signed, Bool.false_eq_true, if_true, if_false] at h
  · exact ⟨by omega, .inl rfl⟩
  · exact ⟨by omega, .inr (by omega)⟩
  · exact ⟨by omega, .inr (by omega)⟩
  · exact ⟨by omega, .inl rfl⟩

lemma signed_mul (s : Bool) (m k : Nat) :
    Quantity.signed s m * (k : Int) = Quantity.signed s (m * k) := by
  cases s with
  | false => exact (Int.natCast_mul m k).symm
  | true =>
    rw [Quantity.signed, Quantity.signed, if_pos rfl, if_pos rfl, Int.neg_mul, Int.natCast_mul]

/-- Numbers count as the same only if both are finite, or both are infinite with the same sign. -/
lemma same_cases {x y : Double} (h : (Scalar.double x).same (.double y) = true) :
    (∃ s m e s' m' e', x = .finite s m e ∧ y = .finite s' m' e' ∧
      Quantity.signed s (m * 2 ^ (e.toNat + (-e').toNat)) =
        Quantity.signed s' (m' * 2 ^ (e'.toNat + (-e).toNat))) ∨ ∃ s, x = .infinite s ∧ y = x := by
  simp only [Scalar.same, Scalar.quantity?] at h
  cases x with
  | finite s m e =>
    cases y with
    | finite s' m' e' =>
      refine .inl ⟨s, m, e, s', m', e', rfl, rfl, ?_⟩
      rw [Nat.pow_add, Nat.pow_add, ← Nat.mul_assoc, ← Nat.mul_assoc, ← signed_mul, ← signed_mul,
        ← signed_mul, ← signed_mul]
      simpa [Quantity.ofDouble?, Quantity.equal, Quantity.order_finite] using h
    | infinite s' => cases s' <;> simp [Quantity.ofDouble?, Quantity.equal, Quantity.order] at h
    | nan => simp [Quantity.ofDouble?] at h
  | infinite s =>
    cases y with
    | finite s' m' e' => cases s <;> simp [Quantity.ofDouble?, Quantity.equal, Quantity.order] at h
    | infinite s' =>
      refine .inr ⟨s, rfl, ?_⟩
      cases s <;> cases s' <;> simp_all [Quantity.ofDouble?, Quantity.equal, Quantity.order]
    | nan => simp [Quantity.ofDouble?] at h
  | nan => simp [Quantity.ofDouble?] at h

/-- Doubles that denote the same number are the same, or they are zeros. -/
theorem eq_or_zero_of_same {x y : Double} (hx : x.IsCanonical) (hy : y.IsCanonical)
    (h : (Scalar.double x).same (.double y) = true) :
    x = y ∨ ∃ s s', x = zero s ∧ y = zero s' := by
  rcases same_cases h with ⟨s, m, e, s', m', e', rfl, rfl, hvalue⟩ | ⟨s, rfl, rfl⟩
  · obtain ⟨hm, he, hfill⟩ := hx
    obtain ⟨hm', he', hfill'⟩ := hy
    obtain ⟨habs, hsign⟩ := signed_injective hvalue
    obtain rfl : e = e' :=
      Int.le_antisymm (exponent_le hm' hfill he' habs.symm) (exponent_le hm hfill' he habs)
    obtain rfl : m = m' := Nat.eq_of_mul_eq_mul_right (Nat.two_pow_pos _) habs
    rcases hsign with rfl | hzero
    · exact .inl rfl
    · obtain rfl : m = 0 :=
        (Nat.mul_eq_zero.1 hzero).resolve_right (Nat.ne_of_gt (Nat.two_pow_pos _))
      obtain rfl : e = leastExponent := by simpa using hfill
      exact .inr ⟨s, s', rfl, rfl⟩
  · exact .inl rfl

/-- The zeros are told apart by their texts. -/
lemma sign_of_text_zero (h : (zero s).text = (zero s').text) : s = s' := by
  cases s <;> cases s' <;> first | rfl | exact absurd h (by decide)

/-! ### Doubles that are read -/

section

variable {num den a b i j i' j' k : Nat}

lemma scaled_eq (num den : Nat) (e : Int) :
    scaled num den e = (num * 2 ^ (-e).toNat, den * 2 ^ e.toNat) := by
  unfold scaled
  split
  · next h => simp [show (-e).toNat = 0 by omega]
  · next h => simp [show e.toNat = 0 by omega]

/-- Only the difference of the powers matters. -/
lemma shift_le (h : i' + j ≤ i + j') (hle : a * 2 ^ i ≤ b * 2 ^ j) : a * 2 ^ i' ≤ b * 2 ^ j' := by
  refine Nat.le_of_mul_le_mul_right ?_ (Nat.two_pow_pos j)
  calc a * 2 ^ i' * 2 ^ j = a * 2 ^ (i' + j) := by rw [Nat.mul_assoc, Nat.pow_add]
    _ ≤ a * 2 ^ (i + j') := Nat.mul_le_mul_left _ (Nat.pow_le_pow_right (by decide) h)
    _ = a * 2 ^ i * 2 ^ j' := by rw [Nat.mul_assoc, Nat.pow_add]
    _ ≤ b * 2 ^ j * 2 ^ j' := Nat.mul_le_mul_right _ hle
    _ = b * 2 ^ j' * 2 ^ j := Nat.mul_right_comm ..

lemma shift_lt (h : i + j' ≤ i' + j) (hlt : b * 2 ^ j < a * 2 ^ i) : b * 2 ^ j' < a * 2 ^ i' :=
  Nat.lt_of_not_le fun hle => Nat.not_le.2 hlt (shift_le h hle)

/-- The magnitude of a quotient is the greatest power of two that is not greater. -/
lemma magnitude_spec (hnum : num ≠ 0) (hden : den ≠ 0) {g : Int} (hg : magnitude num den = g) :
    den * 2 ^ g.toNat ≤ num * 2 ^ (-g).toNat ∧
      num * 2 ^ (-(g + 1)).toNat < den * 2 ^ (g + 1).toNat := by
  have hnumlow : 2 ^ num.log2 ≤ num := Nat.log2_self_le hnum
  have hnumhigh : num < 2 ^ (num.log2 + 1) := Nat.lt_log2_self
  have hdenlow : 2 ^ den.log2 ≤ den := Nat.log2_self_le hden
  have hdenhigh : den < 2 ^ (den.log2 + 1) := Nat.lt_log2_self
  generalize hx : num.log2 = x at *
  generalize hy : den.log2 = y at *
  simp only [magnitude, hx, hy, scaled_eq] at hg
  have hlow : den * 2 ^ x ≤ num * 2 ^ (y + 1) :=
    calc den * 2 ^ x ≤ 2 ^ (y + 1) * 2 ^ x := Nat.mul_le_mul_right _ (Nat.le_of_lt hdenhigh)
      _ = 2 ^ x * 2 ^ (y + 1) := Nat.mul_comm _ _
      _ ≤ num * 2 ^ (y + 1) := Nat.mul_le_mul_right _ hnumlow
  have hhigh : num * 2 ^ y < den * 2 ^ (x + 1) :=
    calc num * 2 ^ y < 2 ^ (x + 1) * 2 ^ y := Nat.mul_lt_mul_of_pos_right hnumhigh (Nat.two_pow_pos _)
      _ = 2 ^ y * 2 ^ (x + 1) := Nat.mul_comm _ _
      _ ≤ den * 2 ^ (x + 1) := Nat.mul_le_mul_right _ hdenlow
  split at hg
  · next h =>
    subst hg
    exact ⟨h, shift_lt (by omega) hhigh⟩
  · next h =>
    subst hg
    refine ⟨shift_le (by omega) hlow, ?_⟩
    rw [Int.sub_add_cancel]
    exact Nat.lt_of_not_le h

lemma le_roundQuotient (hden : den ≠ 0) (h : den * 2 ^ k ≤ num) : 2 ^ k ≤ roundQuotient num den := by
  have hq : 2 ^ k ≤ num / den := (Nat.le_div_iff_mul_le (by omega)).2 (by rwa [Nat.mul_comm])
  unfold roundQuotient
  dsimp only
  split <;> omega

lemma roundQuotient_le (hden : den ≠ 0) (h : num < den * 2 ^ k) : roundQuotient num den ≤ 2 ^ k := by
  have hq : num / den < 2 ^ k := (Nat.div_lt_iff_lt_mul (by omega)).2 (by rwa [Nat.mul_comm])
  unfold roundQuotient
  dsimp only
  split <;> omega

end

lemma isCanonical_zero (negative : Bool) : (zero negative).IsCanonical := by
  cases negative <;> decide

/-- What a quotient is rounded to has the form of a double. -/
theorem isCanonical_ofQuotient (negative : Bool) (num : Nat) {den : Nat} (hden : den ≠ 0) :
    (ofQuotient negative num den).IsCanonical := by
  unfold ofQuotient
  split
  · exact isCanonical_zero negative
  · next hnum =>
    obtain ⟨g, hg⟩ : ∃ g, magnitude num den = g := ⟨_, rfl⟩
    obtain ⟨hlow, hhigh⟩ := magnitude_spec hnum hden hg
    rw [hg]
    generalize he : max (g - 52) leastExponent = e
    simp only [scaled_eq]
    generalize hm : roundQuotient (num * 2 ^ (-e).toNat) (den * 2 ^ e.toNat) = m
    have hpos : den * 2 ^ e.toNat ≠ 0 := Nat.mul_ne_zero hden (Nat.ne_of_gt (Nat.two_pow_pos _))
    have hmax : m ≤ 2 ^ 53 := by
      rw [← hm]
      refine roundQuotient_le hpos ?_
      rw [Nat.mul_assoc, ← Nat.pow_add]
      exact shift_lt (by omega) hhigh
    have hfill : 2 ^ 52 ≤ m ∨ e = leastExponent := by
      by_cases hleast : e = leastExponent
      · exact .inr hleast
      · left
        rw [← hm]
        refine le_roundQuotient hpos ?_
        rw [Nat.mul_assoc, ← Nat.pow_add]
        exact shift_le (by omega) hlow
    have hleast : leastExponent ≤ e := he ▸ Int.le_max_right _ _
    -- A significand that is rounded up to a new digit is a power of two, and goes with the next exponent.
    by_cases hcarry : m = 2 ^ 53
    · simp only [hcarry, Nat.pow_eq, if_true]
      split
      · trivial
      · exact ⟨by decide, by omega, .inl (Nat.le_refl _)⟩
    · simp only [Nat.pow_eq, hcarry, if_false]
      split
      · trivial
      · exact ⟨by omega, hleast, hfill⟩

/-- **Every number that is read has the form of a double.** -/
theorem isCanonical_of_read? {s : String} {x : Double} (h : read? s = some x) : x.IsCanonical := by
  have hdecimal (negative : Bool) (c : Nat) (k : Int) : (ofDecimal negative c k).IsCanonical := by
    unfold ofDecimal
    dsimp only
    split
    · exact isCanonical_zero negative
    · split
      · trivial
      · split
        · exact isCanonical_ofQuotient negative _ (by decide)
        · exact isCanonical_ofQuotient negative _ (Nat.ne_of_gt (Nat.pow_pos (by decide)))
  obtain ⟨cs, -, h⟩ := Option.bind_eq_some_iff.1 h
  unfold ofChars? at h
  dsimp only at h
  split at h
  · cases h
    exact hdecimal _ _ _
  · split at h
    · cases h
      trivial
    · split at h
      · cases h
        trivial
      · cases h

end GraphSelect.Double
