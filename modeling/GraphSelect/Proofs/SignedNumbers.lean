import GraphSelect.Proofs.Reparsing
import Mathlib.Algebra.Group.Nat.Defs
import Mathlib.Data.List.Induction
import Mathlib.Logic.Function.Iterate

/-!
Numbers behind signs.

A minus before a number belongs to the number, and so does every minus before that one. The number
is read without its signs, and what has been read is then negated. A whole number keeps its value,
but also the type that it has without its sign: so −2³¹, which fits 32 bits only with its sign, is
taken for a long one. A decimal is rounded when it is negated: it loses what it has behind its first
28 digits, and behind the last place that an operation keeps. If more than a million digits are
left before the point the negation fails, and the statement about signs leaves such numbers out.
-/

namespace GraphSelect

open Text

/-! ### Numbers without signs -/

section

variable {t : Terminal} {cs ds es : List Char} {expected : List Terminal}

/-- The terminals of numbers without an exponent. -/
def Terminal.IsExact (t : Terminal) : Prop := t = .integer ∨ t = .decimal

/-- A decimal has a point among its digits. -/
lemma exists_point (h : Terminal.match? .decimal cs = some cs) :
    ∃ ds es, cs = ds ++ '.' :: es ∧ (∀ d ∈ ds, isDigit d = true) ∧ (∀ e ∈ es, isDigit e = true) ∧
      (ds ≠ [] ∨ es ≠ []) := by
  obtain ⟨-, hm, hpoint⟩ := Terminal.mantissa_of_match? h
  cases hm with
  | whole hcs => exact absurd (hcs '.' hpoint) (by decide)
  | @pointed ds es hds hes hne => exact ⟨ds, es, rfl, hds, hes, hne⟩

/-- A number at the end of a text is taken whole. -/
lemma first?_exact (ht : t.IsExact) (h : t.match? cs = some cs) (hexpected : t ∈ expected) :
    Token.first? expected cs = some ⟨t, cs⟩ := by
  rcases ht with rfl | rfl
  · obtain ⟨-, hne, hdigits⟩ := Terminal.digits_of_match? h
    simpa using Token.first?_digits (r := []) hexpected hdigits hne (by simp)
  · rw [Token.first?_eq hexpected h]
    · rfl
    · intro u hu _
      obtain rfl : u = .approximate := by
        simpa [show Terminal.before .decimal = [.approximate] from rfl] using hu
      simp [Terminal.match?, Terminal.approximate?, ← (Terminal.mantissa_of_match? h).1]

lemma exists_cons_of_exact (ht : t.IsExact) (h : t.match? cs = some cs) :
    ∃ c w, cs = c :: w ∧ isGap c = false := by
  have hchars : cs ≠ [] ∧ ∀ c ∈ cs, Decimal.isDecimalChar c = true := by
    rcases ht with rfl | rfl
    · obtain ⟨-, hne, hdigits⟩ := Terminal.digits_of_match? h
      exact ⟨hne, isDecimalChar_of_digits hdigits⟩
    · obtain ⟨-, hm, hpoint⟩ := Terminal.mantissa_of_match? h
      exact ⟨List.ne_nil_of_mem hpoint, hm.isDecimalChar⟩
  obtain ⟨c, w, rfl⟩ := List.exists_cons_of_ne_nil hchars.1
  exact ⟨c, w, rfl, isGap_of_isDecimalChar (hchars.2 c List.mem_cons_self)⟩

end

/-! ### Signs -/

namespace Literal

/-- A literal that an operation can leave. -/
def IsInRange (l : Literal) : Prop :=
  ∀ d : Decimal, l.value = .decimal d → d.IsInRange

lemma isNumeric_ofExact (s : String) : (ofExact s).type.isNumeric = true := by
  unfold ofExact
  split
  · rfl
  · dsimp only
    split <;> rfl

end Literal

namespace Parser

variable {t : Terminal} {cs d : List Char} {n : Nat}

/-- The constructs around a number behind some signs. -/
def signStack (n : Nat) : List Frame :=
  List.replicate n (.prefixed .negate) ++ [.query .empty .items]

lemma cons_signStack (n : Nat) : .prefixed .negate :: signStack n = signStack (n + 1) := rfl

/-- The signs before a number negate it, one after the other. -/
lemma reduce_signs {l : Literal} (hl : l.type.isNumeric = true) (n : Nat) :
    reduce 0 (.literal l) (signStack n) =
      (.literal (Literal.negate^[n] l), [.query .empty .items]) := by
  induction n generalizing l with
  | zero => rfl
  | succ n ih =>
    rw [← cons_signStack, reduce, if_pos (Nat.zero_le _), applyPrefix, if_pos hl]
    exact ih hl

/-- A number ends the query that it is selected by. -/
lemma read_exact (ht : t.IsExact) (hd : t.match? d = some d) (n : Nat) (o : Opening)
    (last pos : Position) : read ⟨.operand o, signStack n⟩ last pos 0 d =
      .ok (addItem .empty (.literal (Literal.negate^[n] (.ofExact (String.ofList d))))) := by
  obtain ⟨c, w, hcons, hc⟩ := exists_cons_of_exact ht hd
  have hstarts : t ∈ operandStarts := by rcases ht with rfl | rfl <;> decide
  have hliteral : literal? ⟨t, d⟩ = some (.ofExact (String.ofList d)) := by
    rcases ht with rfl | rfl <;> rfl
  have hrun : run ⟨.operand o, signStack n⟩ [⟨t, d⟩] = .ok _ := run_literal hstarts hliteral
  obtain ⟨hexpected, s, hstep, hrun⟩ := run_cons_eq_ok hrun
  cases hrun
  have hfirst : Token.first? (Opening.expected o) (d ++ []) = some ⟨t, d⟩ := by
    rw [List.append_nil]
    exact first?_exact ht hd hexpected
  have hread := read_first (t := ⟨t, d⟩) (s := ⟨.operand o, signStack n⟩) hfirst hcons hc hstep
    fun last pos => by
      rw [read, State.finish?, State.settled?, reduce_signs (Literal.isNumeric_ofExact _)]
      rfl
  simpa using hread last pos

/-- A number is read with the signs and blanks before it. -/
lemma read_signs (ht : t.IsExact) (hd : t.match? d = some d)
    (hcs : ∀ c ∈ cs, c = '-' ∨ isGap c = true) (n : Nat) (o : Opening) (last pos : Position) :
    read ⟨.operand o, signStack n⟩ last pos 0 (cs ++ d) = .ok (addItem .empty
      (.literal (Literal.negate^[n + cs.count '-'] (.ofExact (String.ofList d))))) := by
  induction cs generalizing n o last pos with
  | nil => exact read_exact ht hd n o last pos
  | cons c cs ih =>
    obtain ⟨hc, htail⟩ := List.forall_mem_cons.1 hcs
    rw [List.cons_append]
    rcases hc with rfl | hc
    · have hexpected := mem_expected_of_mem_operandStarts
        (show Terminal.sign .minus ∈ operandStarts by decide) o
      rw [List.count_cons_self, Nat.add_comm _ 1, ← Nat.add_assoc]
      exact read_token (.ofSign .minus) (fun _ _ => rfl) hexpected rfl (ih htail (n + 1) .strict)
        last pos
    · have hminus : c ≠ '-' := by
        rintro rfl
        exact absurd hc (by decide)
      rw [read, if_pos hc, List.count_cons_of_ne hminus]
      exact ih htail n o _ _

/-- A selected number behind signs is the number without them, negated once for each of them. -/
theorem parse_signs {signs d : String} (ht : t.IsExact) (hd : t.match? d.toList = some d.toList)
    (hsigns : ∀ c ∈ signs.toList, c = '-' ∨ isGap c = true) :
    parse ("SELECT " ++ signs ++ d) = .ok { Select.empty with
      items := [.literal (Literal.negate^[signs.toList.count '-'] (.ofExact d))] } := by
  have hblanks : ∀ c ∈ ' ' :: signs.toList, c = '-' ∨ isGap c = true :=
    List.forall_mem_cons.2 ⟨.inr (by decide), hsigns⟩
  have hread := read_signs ht hd hblanks 0 .select
  rw [Nat.zero_add, String.ofList_toList, List.count_cons_of_ne (by decide)] at hread
  have hstop : ∀ c ∈ (' ' :: signs.toList ++ d.toList).head?,
      Token.stopsAt (.ofKeyword .select) c = true := by
    rintro _ ⟨⟩
    rfl
  rw [parse, String.toList_append, String.toList_append, List.append_assoc]
  exact read_token (.ofKeyword .select) hstop (by decide) rfl hread .start .start

end Parser

/-! ### Whole numbers -/

section

variable {cs ds es : List Char}

lemma natOfDigits_concat (cs : List Char) (c : Char) :
    natOfDigits (cs ++ [c]) = 10 * natOfDigits cs + (digitValue? c).getD 0 := by
  simp [natOfDigits]

/-- A number with a digit that is not zero is not zero. -/
lemma natOfDigits_ne_zero (h : ∃ c ∈ cs, ∃ k ≠ 0, digitValue? c = some k) :
    natOfDigits cs ≠ 0 := by
  induction cs using List.reverseRecOn with
  | nil => simp at h
  | append_singleton cs d ih =>
    rw [natOfDigits_concat]
    obtain ⟨c, hc, k, hk, hvalue⟩ := h
    rcases List.mem_append.1 hc with hc | hc
    · have := ih ⟨c, hc, k, hk, hvalue⟩
      omega
    · rw [← List.mem_singleton.1 hc, hvalue, Option.getD_some]
      omega

lemma int?_minus (hcs : ∀ c ∈ cs, isDigit c = true) (hne : cs ≠ []) :
    int? ('-' :: cs) = some (-(natOfDigits cs : Int)) := by
  have hplain : ∀ c ∈ '-' :: cs, isBlank c = false ∧ c ≠ '_' :=
    List.forall_mem_cons.2 ⟨by decide, fun c hc =>
      Decimal.plain_of_isDecimalChar (isDecimalChar_of_digits hcs c hc)⟩
  simpa [int?, bare?_eq_self hplain, splitSign, intOfDigits, hne] using hcs

/-- A whole number with its sign, by its digits. -/
lemma Literal.ofExact_minus {d : String} (hd : ∀ c ∈ d.toList, isDigit c = true)
    (hne : d.toList ≠ []) : ofExact ("-" ++ d) = ⟨.int (-(natOfDigits d.toList : Int)),
      if isShort (-(natOfDigits d.toList : Int)) then .integer else .bigint⟩ := by
  have hpoint : '.' ∉ d.toList := fun h => absurd (hd '.' h) (by decide)
  simp [ofExact, hpoint, int?_minus hd hne]

/-- A sign keeps a number short or long, except for the least number that is short. -/
lemma Literal.isShort_neg_iff (n : Nat) :
    isShort (n : Int) = isShort (-(n : Int)) ↔ n ≠ 2 ^ 31 := by
  rw [Bool.eq_iff_iff]
  simp only [isShort, Bool.and_eq_true, decide_eq_true_eq]
  omega

/-! ### Decimals -/

lemma Quantity.signed_mul_eq_iff (s : Bool) (m n p : Nat) :
    signed s m * p = signed s n ↔ m * p = n := by
  have hcast : (m : Int) * p = n ↔ m * p = n := by exact_mod_cast Iff.rfl
  cases s with
  | false => exact hcast
  | true =>
    rw [signed, signed, if_pos rfl, if_pos rfl, Int.neg_mul, Int.neg_inj]
    exact hcast

namespace Decimal

/-- The parts of digits around a point. -/
lemma parts?_pointed (hds : ∀ d ∈ ds, isDigit d = true) (hes : ∀ e ∈ es, isDigit e = true)
    (hne : ds ≠ [] ∨ es ≠ []) : parts? (ds ++ '.' :: es) = some ⟨ds, es, 0⟩ := by
  have hpoint : ∀ c ∈ ('.' :: es).head?, isDigit c = false := by
    rintro _ ⟨⟩
    decide
  obtain ⟨htake, hdrop⟩ := span_append hds hpoint
  have hnone : ∀ e ∈ ([] : List Char).head?, isDigit e = false := by simp
  obtain ⟨htake', hdrop'⟩ := span_append hes hnone
  rw [List.append_nil] at htake' hdrop'
  have hsome : (ds.isEmpty && es.isEmpty) = false := by
    rcases hne with hne | hne <;> simp [hne]
  rw [parts?, htake, hdrop]
  simp [htake', hdrop', hsome]

/-- Digits around a point are read with their sign. -/
lemma read?_pointed (negative : Bool) (hds : ∀ d ∈ ds, isDigit d = true)
    (hes : ∀ e ∈ es, isDigit e = true) (hne : ds ≠ [] ∨ es ≠ []) :
    read? (String.ofList (sign negative ++ (ds ++ '.' :: es))) =
      some (.finite negative (natOfDigits (ds ++ es)) (-es.length)) := by
  have hmantissa : IsMantissa (ds ++ '.' :: es) := .pointed hds hes hne
  have hbare : bare (sign negative ++ (ds ++ '.' :: es)) = sign negative ++ (ds ++ '.' :: es) := by
    refine bare_eq_self (List.forall_mem_append.2 ⟨?_, hmantissa.isDecimalChar⟩)
    cases negative <;> decide
  have hsplit : splitSign (sign negative ++ (ds ++ '.' :: es)) = (negative, ds ++ '.' :: es) := by
    cases negative with
    | true => rfl
    | false => simpa [sign] using hmantissa.splitSign_eq []
  simp [read?, hbare, hsplit, parts?_pointed hds hes hne, Parts.coefficient, Parts.scale]

end Decimal

lemma Literal.ofExact_pointed (negative : Bool) (hds : ∀ d ∈ ds, isDigit d = true)
    (hes : ∀ e ∈ es, isDigit e = true) (hne : ds ≠ [] ∨ es ≠ []) :
    ofExact (String.ofList (Decimal.sign negative ++ (ds ++ '.' :: es))) =
      ⟨.decimal (.finite negative (natOfDigits (ds ++ es)) (-es.length)), .decimal⟩ := by
  rw [ofExact, Decimal.read?_pointed negative hds hes hne, if_pos (by simp), Option.getD_some]

end

namespace Decimal

/-- How many digits at the end of a number are lost when it is negated. -/
def lost (c : Nat) (e : Int) : Nat :=
  max (digitCount c - precision) (leastExponent - e).toNat

lemma lost_eq_zero_iff (c k : Nat) : lost c (-k) = 0 ↔ digitCount c ≤ 28 ∧ k ≤ 1000026 := by
  simp only [lost, precision, leastExponent]
  omega

lemma lt_pow_digitCount (n : Nat) : n < 10 ^ digitCount n :=
  (Nat.length_toDigits_le_iff (by decide) (List.length_pos_iff.2 (digitsOf_ne_nil n))).1 le_rfl

/-- Only zeros are rounded away without a trace. -/
lemma roundTens_mul_eq_iff {c : Nat} (hc : c ≠ 0) (k : Nat) :
    roundTens c (min k (digitCount c + 1)) * 10 ^ k = c ↔ 10 ^ k ∣ c := by
  refine ⟨fun h => h ▸ Nat.dvd_mul_left _ _, fun h => ?_⟩
  have hk : k < digitCount c := by
    have hle := Nat.le_of_dvd (Nat.pos_of_ne_zero hc) h
    exact (Nat.pow_lt_pow_iff_right (by decide)).1 (hle.trans_lt (lt_pow_digitCount c))
  have hround : roundTens c k = c / 10 ^ k := by
    have hpos : 10 ^ k ≠ 0 := (Nat.pow_pos (by decide)).ne'
    simp [roundTens, Nat.mod_eq_zero_of_dvd h, hpos.symm]
  rw [Nat.min_eq_left (by omega), hround, Nat.div_mul_cancel h]

lemma rounded_of_lost {c : Nat} {e : Int} (h : lost c e = 0) (s : Bool) :
    rounded s c e = .finite s c e := by
  have h' : max (digitCount c - precision) (leastExponent - e).toNat = 0 := h
  simp [rounded, h']

/-- A rounded number ends as many places earlier as digits are lost, or one more. It is the same
number if these are zeros. -/
lemma exists_rounded (s : Bool) {c : Nat} (hc : c ≠ 0) (e : Int) :
    ∃ (c' k : Nat), rounded s c e = .finite s c' (e + k) ∧ lost c e ≤ k ∧
      (c' * 10 ^ k = c ↔ 10 ^ lost c e ∣ c) := by
  by_cases h : lost c e = 0
  · exact ⟨c, 0, by simp [rounded_of_lost h], by omega, by simp [h]⟩
  · have hiff := roundTens_mul_eq_iff hc (lost c e)
    have hrounded : rounded s c e =
        if roundTens c (min (lost c e) (digitCount c + 1)) = 10 ^ precision then
          .finite s (10 ^ precision / 10) (e + lost c e + 1)
        else .finite s (roundTens c (min (lost c e) (digitCount c + 1))) (e + lost c e) := by
      have h' : max (digitCount c - precision) (leastExponent - e).toNat ≠ 0 := h
      simp only [rounded, h', if_false, lost]
      split <;> simp_all
    rw [hrounded]
    split
    · next hcarry =>
      refine ⟨10 ^ precision / 10, lost c e + 1, by rw [Int.natCast_succ, Int.add_assoc],
        by omega, ?_⟩
      rw [hcarry] at hiff
      rw [← hiff, Nat.pow_succ, Nat.mul_comm (10 ^ lost c e), ← Nat.mul_assoc]
      rfl
    · exact ⟨_, lost c e, rfl, le_rfl, hiff⟩

section

variable {c : Nat} {e : Int} {s : Bool}

lemma negate_finite (hc : c ≠ 0) : negate (.finite s c e) = rounded (!s) c e := by
  cases c with
  | zero => exact absurd rfl hc
  | succ c => rfl

lemma exists_negate_zero (s : Bool) (e : Int) :
    ∃ e', negate (.finite s 0 e) = .finite false 0 e' :=
  ⟨_, rfl⟩

/-- Negation only changes the sign if no digit is lost. -/
theorem negate_eq_iff (hc : c ≠ 0) :
    negate (.finite s c e) = .finite (!s) c e ↔ lost c e = 0 := by
  rw [negate_finite hc]
  refine ⟨fun h => ?_, fun h => rounded_of_lost h _⟩
  obtain ⟨c', k, hrounded, hk, -⟩ := exists_rounded (!s) hc e
  rw [hrounded, finite.injEq] at h
  omega

/-- What is lost by a negation does not come back by another one. -/
theorem negate_negate_eq_iff (hc : c ≠ 0) :
    negate (negate (.finite s c e)) = .finite s c e ↔ lost c e = 0 := by
  refine ⟨fun h => ?_, fun h => ?_⟩
  · obtain ⟨c', k, hrounded, hk, -⟩ := exists_rounded (!s) hc e
    rw [negate_finite hc, hrounded] at h
    by_cases hc' : c' = 0
    · obtain ⟨e', hzero⟩ := exists_negate_zero (!s) (e + k)
      rw [hc', hzero, finite.injEq] at h
      exact absurd h.2.1.symm hc
    · obtain ⟨c'', k', hrounded', -, -⟩ := exists_rounded (!!s) hc' (e + k)
      rw [negate_finite hc', hrounded', finite.injEq] at h
      omega
  · rw [(negate_eq_iff hc).2 h, (negate_eq_iff hc).2 h, Bool.not_not]

/-- The negation denotes the negated number if only zeros are lost. -/
theorem exists_quantity_negate (hc : c ≠ 0) :
    ∃ x y, Quantity.ofDecimal? (negate (.finite s c e)) = some x ∧
      Quantity.ofDecimal? (.finite (!s) c e) = some y ∧
      (x.equal y = true ↔ 10 ^ lost c e ∣ c) := by
  obtain ⟨c', k, hrounded, -, hiff⟩ := exists_rounded (!s) hc e
  refine ⟨_, _, by rw [negate_finite hc, hrounded, Quantity.ofDecimal?], rfl, ?_⟩
  rw [← hiff, Quantity.equal, decide_eq_true_iff, Quantity.order_finite]
  have hk : (e + k - e).toNat = k := by omega
  have hk' : (e - (e + k)).toNat = 0 := by omega
  rw [hk, hk', Int.compare_eq_eq]
  simpa using Quantity.signed_mul_eq_iff (!s) c' c (10 ^ k)

end

end Decimal

/-! ### Signs and what they change -/

section

variable {d : String}

/-- The sign of a whole number can be read with it or before it, but for the type of one number. -/
lemma Literal.negate_whole (hd : Terminal.match? .integer d.toList = some d.toList) :
    (ofExact d).negate.value = (ofExact ("-" ++ d)).value ∧
      ((ofExact d).negate.type = (ofExact ("-" ++ d)).type ↔ natOfDigits d.toList ≠ 2 ^ 31) ∧
      (ofExact d).negate.negate = ofExact d := by
  obtain ⟨-, hne, hdigits⟩ := Terminal.digits_of_match? hd
  have hplain := ofExact_of_digits hdigits hne
  have hminus := ofExact_minus hdigits hne
  rw [String.ofList_toList] at hplain
  rw [hplain, hminus]
  refine ⟨rfl, ?_, ?_⟩
  · rw [← isShort_neg_iff]
    simp only [negate, ofNat]
    split <;> split <;> simp_all
  · simp [negate, ofNat, Value.negate, Scalar.negate]

/-- The coefficient of a decimal and the number of its places behind the point. -/
lemma Literal.exists_decimal (hd : Terminal.match? .decimal d.toList = some d.toList)
    (hnonzero : ∃ c ∈ d.toList, ∃ k ≠ 0, digitValue? c = some k) :
    ∃ c k : Nat, c ≠ 0 ∧ ofExact d = ⟨.decimal (.finite false c (-k)), .decimal⟩ ∧
      ofExact ("-" ++ d) = ⟨.decimal (.finite true c (-k)), .decimal⟩ := by
  obtain ⟨ds, es, hcs, hds, hes, hne⟩ := exists_point hd
  refine ⟨natOfDigits (ds ++ es), es.length, ?_, ?_, ?_⟩
  · refine natOfDigits_ne_zero ?_
    obtain ⟨c, hc, k, hk, hvalue⟩ := hnonzero
    rw [hcs, List.mem_append, List.mem_cons] at hc
    rcases hc with hc | rfl | hc
    · exact ⟨c, List.mem_append_left _ hc, k, hk, hvalue⟩
    · exact absurd hvalue (by simp [show digitValue? '.' = none by decide])
    · exact ⟨c, List.mem_append_right _ hc, k, hk, hvalue⟩
  · have hread := ofExact_pointed false hds hes hne
    rwa [Decimal.sign, if_neg Bool.false_ne_true, List.nil_append, ← hcs, String.ofList_toList]
      at hread
  · have hread := ofExact_pointed true hds hes hne
    have htext : String.ofList (Decimal.sign true ++ (ds ++ '.' :: es)) = "-" ++ d :=
      String.toList_inj.1 (by simp [Decimal.sign, hcs])
    rwa [htext] at hread

end

/-- **Signs before a number**: the number is read without them and negated once for each. A whole
number gets the value and the type that it has if it is read with one of them, but for the type of
the least one that fits 32 bits. A decimal does if it has 28 digits at most and no place too far
behind the point; if not, digits are lost, and the number changes unless they are zeros. A decimal
of which more than a million digits would be left before the point cannot be negated: what is read
with a sign before it, and which number that is, stays open here. -/
theorem signs_negate {t : Terminal} {d : String} (ht : t.IsExact)
    (hd : t.match? d.toList = some d.toList)
    (hnonzero : ∃ c ∈ d.toList, ∃ k ≠ 0, digitValue? c = some k) :
    (∀ signs : String, (∀ c ∈ signs.toList, c = '-' ∨ isGap c = true) →
      ('-' ∈ signs.toList → (Literal.ofExact d).negate.IsInRange) →
      Parser.parse ("SELECT " ++ signs ++ d) = .ok { Select.empty with
        items := [.literal (Literal.negate^[signs.toList.count '-'] (.ofExact d))] }) ∧
    (t = .integer →
      (Literal.ofExact d).negate.value = (Literal.ofExact ("-" ++ d)).value ∧
      ((Literal.ofExact d).negate.type = (Literal.ofExact ("-" ++ d)).type ↔
        natOfDigits d.toList ≠ 2 ^ 31) ∧
      (Literal.ofExact d).negate.negate = .ofExact d) ∧
    (t = .decimal → ∃ c k : Nat,
      Literal.ofExact d = ⟨.decimal (.finite false c (-k)), .decimal⟩ ∧
      Literal.ofExact ("-" ++ d) = ⟨.decimal (.finite true c (-k)), .decimal⟩ ∧
      ((Literal.ofExact d).negate = .ofExact ("-" ++ d) ↔ digitCount c ≤ 28 ∧ k ≤ 1000026) ∧
      ((Literal.ofExact d).negate.negate = .ofExact d ↔ digitCount c ≤ 28 ∧ k ≤ 1000026) ∧
      ((Literal.ofExact d).negate.IsInRange →
        ∃ x y, (Literal.ofExact d).negate.value.quantity? = some x ∧
          (Literal.ofExact ("-" ++ d)).value.quantity? = some y ∧
          (x.equal y = true ↔ 10 ^ Decimal.lost c (-k) ∣ c))) := by
  refine ⟨fun signs hsigns _ => Parser.parse_signs ht hd hsigns, ?_, ?_⟩
  · rintro rfl
    exact Literal.negate_whole hd
  · rintro rfl
    obtain ⟨c, k, hc, hplain, hminus⟩ := Literal.exists_decimal hd hnonzero
    rw [hplain, hminus]
    have hvalue (x y : Decimal) :
        (⟨.decimal x, .decimal⟩ : Literal) = ⟨.decimal y, .decimal⟩ ↔ x = y := by simp
    refine ⟨c, k, rfl, rfl, ?_, ?_, fun _ => Decimal.exists_quantity_negate hc⟩
    · exact (hvalue _ _).trans ((Decimal.negate_eq_iff hc).trans (Decimal.lost_eq_zero_iff c k))
    · exact (hvalue _ _).trans
        ((Decimal.negate_negate_eq_iff hc).trans (Decimal.lost_eq_zero_iff c k))

/-- A price keeps its zero behind a sign, and behind two. -/
theorem signs_negate_price :
    Parser.parse ("SELECT " ++ "-" ++ "1.50") =
      .ok { Select.empty with items := [.literal (.ofExact ("-" ++ "1.50"))] } ∧
    Parser.parse ("SELECT " ++ "- - " ++ "1.50") =
      .ok { Select.empty with items := [.literal (.ofExact "1.50")] } := by
  have hprice : Literal.ofExact "1.50" = ⟨.decimal (.finite false 150 (-2)), .decimal⟩ := rfl
  obtain ⟨hparse, -, hdecimal⟩ := signs_negate (t := .decimal) (d := "1.50") (.inr rfl) (by decide)
    ⟨'5', by decide, 5, by decide, by decide⟩
  obtain ⟨c, k, hplain, -, hone, htwo, -⟩ := hdecimal rfl
  obtain ⟨rfl, hk⟩ : 150 = c ∧ (-2 : Int) = -k := by simpa [hprice] using hplain
  have hfits : digitCount 150 ≤ 28 ∧ k ≤ 1000026 := ⟨by decide, by omega⟩
  have hrange : (Literal.ofExact "1.50").negate.IsInRange := by
    rintro _ ⟨⟩
    show (digitCount 150 : Int) + -2 ≤ 1000000
    decide
  refine ⟨?_, ?_⟩
  · rw [← hone.2 hfits]
    exact hparse "-" (by decide) fun _ => hrange
  · rw [← htwo.2 hfits]
    exact hparse "- - " (by decide) fun _ => hrange

/-- The least number of 32 bits gets the type of a longer one, and the last of 29 digits is lost. -/
theorem signs_change_numbers :
    (Parser.parse "SELECT -2147483648" =
        .ok { Select.empty with items := [.literal ⟨.int (-2147483648), .bigint⟩] } ∧
      Literal.ofExact "-2147483648" = ⟨.int (-2147483648), .integer⟩) ∧
    (Parser.parse "SELECT -1.2345678901234567890123456789" = .ok { Select.empty with items :=
        [.literal ⟨.decimal (.finite true 1234567890123456789012345679 (-27)), .decimal⟩] } ∧
      Literal.ofExact "-1.2345678901234567890123456789" =
        ⟨.decimal (.finite true 12345678901234567890123456789 (-28)), .decimal⟩) :=
  ⟨⟨rfl, rfl⟩, rfl, rfl⟩

end GraphSelect
