import GraphSelect.Number.Decimal
import Mathlib.Tactic.Common

/-!
Numbers are read back from their texts.

The text of a number spells its digits, and the point and the power of ten say where they belong. So
different whole numbers have different texts, and so have different decimals, also if they denote
the same number.
-/

namespace GraphSelect

open Text

namespace Text

variable {c : Char} {cs ds : List Char} {n : Nat}

/-! ### Whole numbers -/

lemma digitValue?_of_charIsDigit (h : c.isDigit) : digitValue? c = some (c.toNat - '0'.toNat) := by
  simp only [Char.isDigit, Bool.and_eq_true, decide_eq_true_eq] at h
  have hlow : c.toNat < 0x80 := Nat.lt_of_le_of_lt (UInt32.le_iff_toNat_le.1 h.2) (by decide)
  have hrange : '0' ≤ c ∧ c ≤ '9' := ⟨h.1, h.2⟩
  simp [digitValue?, hlow, hrange]

lemma charIsDigit_of_mem_digitsOf (h : c ∈ digitsOf n) : c.isDigit :=
  Nat.isDigit_of_mem_toDigits (by decide) (by decide) h

lemma isDigit_of_mem_digitsOf (h : c ∈ digitsOf n) : isDigit c = true := by
  simp [isDigit, digitValue?_of_charIsDigit (charIsDigit_of_mem_digitsOf h)]

lemma digitsOf_ne_nil (n : Nat) : digitsOf n ≠ [] := Nat.toDigits_ne_nil

lemma natOfDigits_digitsOf (n : Nat) : natOfDigits (digitsOf n) = n := by
  have hfold (cs : List Char) (hcs : ∀ c ∈ cs, c.isDigit) (init : Nat) :
      cs.foldl (fun n c => 10 * n + (digitValue? c).getD 0) init =
        Nat.ofDigitChars 10 cs init := by
    induction cs generalizing init with
    | nil => rfl
    | cons c cs ih =>
      obtain ⟨hc, hcs⟩ := List.forall_mem_cons.1 hcs
      rw [List.foldl_cons, ih hcs, digitValue?_of_charIsDigit hc]
      rfl
  rw [natOfDigits, hfold _ (fun c hc => charIsDigit_of_mem_digitsOf hc)]
  exact Nat.ofDigitChars_toDigits (by decide) (by decide)

lemma natOfDigits_zeros_append (k : Nat) (cs : List Char) :
    natOfDigits (List.replicate k '0' ++ cs) = natOfDigits cs := by
  induction k with
  | zero => rfl
  | succ k ih => exact ih

/-- A class takes what belongs to it, and no more. -/
lemma span_append {p : Char → Bool} (hcs : ∀ c ∈ cs, p c = true)
    (hds : ∀ d ∈ ds.head?, p d = false) :
    (cs ++ ds).takeWhile p = cs ∧ (cs ++ ds).dropWhile p = ds := by
  rw [List.takeWhile_append_of_pos hcs, List.dropWhile_append_of_pos hcs]
  cases ds with
  | nil => simp
  | cons d ds => simp [hds d rfl]

/-- A number has a first digit. -/
lemma exists_digitsOf (n : Nat) :
    ∃ c cs, digitsOf n = c :: cs ∧ isDigit c = true ∧ ∀ d ∈ cs, isDigit d = true := by
  obtain ⟨c, cs, h⟩ := List.exists_cons_of_ne_nil (digitsOf_ne_nil n)
  have hall := fun d => isDigit_of_mem_digitsOf (c := d) (n := n)
  rw [h] at hall
  exact ⟨c, cs, h, hall c List.mem_cons_self, fun d hd => hall d (List.mem_cons_of_mem c hd)⟩

/-- A sign is read where a digit follows. -/
lemma splitSign_append (negative : Bool) (hc : isDigit c = true) (cs : List Char) :
    splitSign ((if negative then ['-'] else []) ++ c :: cs) = (negative, c :: cs) := by
  have hminus : c ≠ '-' := fun h => absurd (h ▸ hc) (by decide)
  have hplus : c ≠ '+' := fun h => absurd (h ▸ hc) (by decide)
  cases negative with
  | true => rfl
  | false =>
    simp only [Bool.false_eq_true, if_false, List.nil_append]
    unfold splitSign
    split
    · next h => exact absurd (List.cons.inj h).1 hminus
    · next h => exact absurd (List.cons.inj h).1 hplus
    · rfl

/-- A whole number is read back from its text. -/
theorem intOfDigits_ofInt (n : Int) : intOfDigits (ofInt n).toList = n := by
  obtain ⟨c, cs, h, hc, -⟩ := exists_digitsOf n.natAbs
  have hsplit := splitSign_append (decide (n < 0)) hc cs
  simp only [decide_eq_true_eq] at hsplit
  simp only [intOfDigits, ofInt, String.toList_ofList, h, hsplit, decide_eq_true_eq]
  rw [← h, natOfDigits_digitsOf]
  split <;> omega

theorem ofInt_injective : Function.Injective ofInt := by
  intro n m h
  rw [← intOfDigits_ofInt n, h, intOfDigits_ofInt]

end Text

namespace Decimal

/-! ### Decimals -/

variable {whole fraction rest : List Char} {x : Int}

/-- What stands behind the digits of a decimal, and the power of ten that it spells. -/
inductive Ending : List Char → Int → Prop
  | none : Ending [] 0
  | power (x : Int) : Ending (layout.power x) x

lemma power_eq (x : Int) :
    layout.power x = 'E' :: (if x < 0 then '-' else '+') :: digitsOf x.natAbs := by
  have : 1 - (digitsOf x.natAbs).length = 0 := by
    have := List.length_pos_iff.2 (digitsOf_ne_nil x.natAbs)
    omega
  simp [Layout.power, layout, this]

lemma splitSign_power (x : Int) (cs : List Char) :
    splitSign ((if x < 0 then '-' else '+') :: cs) = (decide (x < 0), cs) := by
  by_cases hx : x < 0 <;> simp [hx, splitSign]

lemma intOfDigits_power (x : Int) :
    intOfDigits ((if x < 0 then '-' else '+') :: digitsOf x.natAbs) = x := by
  simp only [intOfDigits, splitSign_power, natOfDigits_digitsOf, decide_eq_true_eq]
  split <;> omega

lemma Ending.isDigit_head? (h : Ending rest x) : ∀ c ∈ rest.head?, isDigit c = false := by
  cases h with
  | none => simp
  | power x =>
    simp only [power_eq, List.head?_cons, Option.mem_some_iff, forall_eq']
    decide

/-- A decimal as it is written: digits, perhaps a point and more digits, and an ending. -/
inductive Written : List Char → Parts → Prop
  | whole {cs rest : List Char} {x : Int} (hcs : ∀ c ∈ cs, isDigit c = true) (hne : cs ≠ [])
      (h : Ending rest x) : Written (cs ++ rest) ⟨cs, [], x⟩
  | pointed {cs ds rest : List Char} {x : Int} (hcs : ∀ c ∈ cs, isDigit c = true) (hne : cs ≠ [])
      (hds : ∀ d ∈ ds, isDigit d = true) (h : Ending rest x) :
      Written (cs ++ '.' :: (ds ++ rest)) ⟨cs, ds, x⟩

/-- What is written is read. -/
lemma Written.parts?_eq {cs : List Char} {p : Parts} (h : Written cs p) : parts? cs = some p := by
  have hpower (x : Int) : ∀ c ∈ digitsOf x.natAbs, isDigit c = true :=
    fun c => isDigit_of_mem_digitsOf
  cases h with
  | @whole cs rest x hcs hne h =>
    obtain ⟨htake, hdrop⟩ := span_append hcs h.isDigit_head?
    rw [parts?, htake, hdrop]
    cases h with
    | none => simp [hne]
    | power x =>
      simpa [power_eq, hne, splitSign_power, intOfDigits_power, digitsOf_ne_nil] using hpower x
  | @pointed cs ds rest x hcs hne hds h =>
    have hpoint : ∀ c ∈ ('.' :: (ds ++ rest)).head?, isDigit c = false := by
      simp only [List.head?_cons, Option.mem_some_iff, forall_eq']
      decide
    obtain ⟨htake, hdrop⟩ := span_append hcs hpoint
    obtain ⟨htake', hdrop'⟩ := span_append hds h.isDigit_head?
    rw [parts?, htake, hdrop]
    simp only [htake', hdrop']
    cases h with
    | none => simp [hne]
    | power x =>
      simpa [power_eq, hne, splitSign_power, intOfDigits_power, digitsOf_ne_nil] using hpower x

/-- The characters of a decimal without its sign. -/
def isDecimalChar (c : Char) : Bool :=
  isDigit c || ['.', 'E', '+', '-'].contains c

lemma Ending.isDecimalChar (h : Ending rest x) : ∀ c ∈ rest, isDecimalChar c = true := by
  cases h with
  | none => simp
  | power x =>
    rw [power_eq]
    refine List.forall_mem_cons.2 ⟨by decide, List.forall_mem_cons.2 ⟨?_, fun c hc => ?_⟩⟩
    · split <;> decide
    · simp [Decimal.isDecimalChar, isDigit_of_mem_digitsOf hc]

lemma Written.exists_cons {cs : List Char} {p : Parts} (h : Written cs p) :
    ∃ c ds, cs = c :: ds ∧ isDigit c = true := by
  cases h with
  | whole hcs hne | pointed hcs hne =>
    obtain ⟨c, ds, rfl⟩ := List.exists_cons_of_ne_nil hne
    exact ⟨c, _, rfl, hcs c List.mem_cons_self⟩

lemma Written.isDecimalChar {cs : List Char} {p : Parts} (h : Written cs p) :
    ∀ c ∈ cs, isDecimalChar c = true := by
  have hdigits {cs : List Char} (hcs : ∀ c ∈ cs, isDigit c = true) :
      ∀ c ∈ cs, Decimal.isDecimalChar c = true :=
    fun c hc => by simp [Decimal.isDecimalChar, hcs c hc]
  cases h with
  | whole hcs _ h => exact List.forall_mem_append.2 ⟨hdigits hcs, h.isDecimalChar⟩
  | pointed hcs _ hds h =>
    exact List.forall_mem_append.2 ⟨hdigits hcs, List.forall_mem_cons.2 ⟨by decide,
      List.forall_mem_append.2 ⟨hdigits hds, h.isDecimalChar⟩⟩⟩

variable {digits : List Char}

lemma written_positional {point : Int} (hdigits : ∀ c ∈ digits, isDigit c = true) (hne : digits ≠ [])
    (hpoint : point ≤ digits.length) :
    ∃ p, Written (layout.positional digits point) p ∧ p.coefficient = natOfDigits digits ∧
      p.scale = point - digits.length := by
  unfold Layout.positional
  split
  · next hlow =>
    refine ⟨⟨['0'], List.replicate (-point).toNat '0' ++ digits, 0⟩, ?_, ?_, ?_⟩
    · have hds : ∀ d ∈ List.replicate (-point).toNat '0' ++ digits, isDigit d = true := by
        refine List.forall_mem_append.2 ⟨fun d hd => ?_, hdigits⟩
        rw [List.eq_of_mem_replicate hd]
        decide
      have hzero : ∀ c ∈ ['0'], isDigit c = true := by decide
      simpa using Written.pointed hzero (by simp) hds .none
    · exact natOfDigits_zeros_append ((-point).toNat + 1) digits
    · simp only [Parts.scale, List.length_append, List.length_replicate]
      omega
  · next hlow =>
    split
    · next hinside =>
      have hcs : ∀ c ∈ digits.take point.toNat, isDigit c = true :=
        fun c hc => hdigits c (List.mem_of_mem_take hc)
      have hds : ∀ d ∈ digits.drop point.toNat, isDigit d = true :=
        fun d hd => hdigits d (List.mem_of_mem_drop hd)
      refine ⟨⟨digits.take point.toNat, digits.drop point.toNat, 0⟩, ?_, ?_, ?_⟩
      · have hne' : digits.take point.toNat ≠ [] := by
          simp only [ne_eq, List.take_eq_nil_iff, hne, or_false]
          omega
        simpa using Written.pointed hcs hne' hds .none
      · simp [Parts.coefficient]
      · simp only [Parts.scale, List.length_drop]
        omega
    · have hzeros : point.toNat - digits.length = 0 := by omega
      refine ⟨⟨digits, [], 0⟩, ?_, by simp [Parts.coefficient], ?_⟩
      · simpa [hzeros, layout] using Written.whole hdigits hne .none
      · simp only [Parts.scale, List.length_nil]
        omega

lemma written_scientific (hdigits : ∀ c ∈ digits, isDigit c = true) (hne : digits ≠ [])
    (point : Int) :
    ∃ p, Written (layout.scientific digits point) p ∧ p.coefficient = natOfDigits digits ∧
      p.scale = point - digits.length := by
  unfold Layout.scientific
  obtain _ | ⟨d, _ | ⟨d', ds⟩⟩ := digits
  · exact absurd rfl hne
  · exact ⟨⟨[d], [], point - 1⟩, .whole hdigits hne (.power _), rfl, by simp [Parts.scale]⟩
  · refine ⟨⟨[d], d' :: ds, point - 1⟩, ?_, rfl, ?_⟩
    · obtain ⟨hd, hds⟩ := List.forall_mem_cons.1 hdigits
      have hfirst : ∀ c ∈ [d], isDigit c = true := by simpa using hd
      exact Written.pointed hfirst (by simp) hds (.power _)
    · simp only [Parts.scale, List.length_cons]
      omega

/-- The characters of a finite decimal are its sign and then the number that it is. -/
theorem exists_written (negative : Bool) (n : Nat) (e : Int) :
    ∃ cs p, (finite negative n e).chars = sign negative ++ cs ∧ Written cs p ∧
      p.coefficient = n ∧ p.scale = e := by
  have hdigits : ∀ c ∈ digitsOf n, isDigit c = true := fun c => isDigit_of_mem_digitsOf
  have hscale : ((digitsOf n).length + e : Int) - (digitsOf n).length = e := by omega
  unfold chars
  dsimp only
  split
  · next h =>
    have hpoint : (digitsOf n).length + e ≤ (digitsOf n).length := by omega
    obtain ⟨p, hp, hn, he⟩ := written_positional hdigits (digitsOf_ne_nil n) hpoint
    exact ⟨_, p, rfl, hp, hn.trans (natOfDigits_digitsOf n), he.trans hscale⟩
  · obtain ⟨p, hp, hn, he⟩ := written_scientific hdigits (digitsOf_ne_nil n)
      ((digitsOf n).length + e)
    exact ⟨_, p, rfl, hp, hn.trans (natOfDigits_digitsOf n), he.trans hscale⟩

lemma plain_of_isDecimalChar {c : Char} (h : isDecimalChar c = true) :
    isBlank c = false ∧ c ≠ '_' := by
  have hmark : ∀ c ∈ ['.', 'E', '+', '-'], isBlank c = false ∧ c ≠ '_' := by decide
  simp only [isDecimalChar, Bool.or_eq_true, List.contains_iff_mem] at h
  rcases h with h | h
  · exact ⟨isBlank_of_isDigit h, fun hc => absurd (hc ▸ h) (by decide)⟩
  · exact hmark c h

lemma bare_eq_self {cs : List Char} (h : ∀ c ∈ cs, isDecimalChar c = true) : bare cs = cs := by
  rw [bare, trim_eq_self fun c hc => (plain_of_isDecimalChar (h c hc)).1]
  exact List.filter_eq_self.2 fun c hc => by simpa using (plain_of_isDecimalChar (h c hc)).2

/-- A finite decimal is read back from its text, with all its digits. -/
theorem read?_text (negative : Bool) (n : Nat) (e : Int) :
    read? (finite negative n e).text = some (finite negative n e) := by
  obtain ⟨cs, p, hchars, hp, rfl, rfl⟩ := exists_written negative n e
  obtain ⟨c, ds, rfl, hc⟩ := hp.exists_cons
  have hbare : bare (sign negative ++ c :: ds) = sign negative ++ c :: ds := by
    refine bare_eq_self (List.forall_mem_append.2 ⟨?_, hp.isDecimalChar⟩)
    cases negative <;> decide
  have hsign : splitSign (sign negative ++ c :: ds) = (negative, c :: ds) :=
    splitSign_append negative hc ds
  unfold read? text
  rw [String.toList_ofList, hchars, hbare, hsign]
  simp only [hp.parts?_eq]

end Decimal

end GraphSelect
