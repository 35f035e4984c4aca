import GraphSelect.Text.Blank
import GraphSelect.Text.Digit

/-!
Numbers as people write them: with blanks around them, and with underscores that group their
digits.
-/

namespace GraphSelect.Text

/-- What may surround a number. -/
def isMargin (c : Char) : Bool :=
  isBlank c && !isSeparator c

/-- Leaves out the underscores, each of which has to stand between two digits. -/
def ungroup? : List Char → Option (List Char)
  | [] => some []
  | '_' :: _ => none
  | c :: '_' :: d :: cs =>
    if isDigit c && isDigit d then (ungroup? (d :: cs)).map (c :: ·) else none
  | c :: cs => (ungroup? cs).map (c :: ·)

/-- A number without what surrounds it and groups its digits. -/
def bare? (cs : List Char) : Option (List Char) :=
  ungroup? (trim isMargin cs)

/-- Reads a whole number with an optional sign. -/
def int? (cs : List Char) : Option Int := do
  let cs ← bare? cs
  let digits := (splitSign cs).2
  if !digits.isEmpty && digits.all isDigit then some (intOfDigits cs) else none

theorem isBlank_of_isDigit {c : Char} (h : isDigit c = true) : isBlank c = false := by
  have apart : ∀ z ∈ zeros, ∀ r ∈ blankRanges, z + 10 ≤ r.1 ∨ r.2 < z := by decide
  obtain ⟨z, hz, low, high⟩ : ∃ z ∈ zeros, z ≤ c.toNat ∧ c.toNat < z + 10 := by
    unfold isDigit digitValue? at h
    split at h
    · split at h
      · rename_i d
        exact ⟨0x30, by decide, d.1, Nat.lt_succ_of_le d.2⟩
      · simp at h
    · simpa using h
  simp only [isBlank, List.any_eq_false, Bool.and_eq_true, decide_eq_true_eq]
  intro r hr
  have := apart z hz r hr
  omega

theorem ungroup?_eq_self {cs : List Char} (h : ∀ c ∈ cs, c ≠ '_') : ungroup? cs = some cs := by
  fun_induction ungroup? cs with
  | case1 => rfl
  | case2 cs => simp at h
  | case3 c d cs hd ih => simp at h
  | case4 c d cs hd => simp at h
  | case5 c cs _ _ ih => simp [ih fun d hd => h d (by simp [hd])]

/-- What neither blanks surround nor underscores group is written as it is. -/
theorem bare?_eq_self {cs : List Char} (h : ∀ c ∈ cs, isBlank c = false ∧ c ≠ '_') :
    bare? cs = some cs := by
  rw [bare?, trim_eq_self fun c hc => by simp [isMargin, (h c hc).1],
    ungroup?_eq_self fun c hc => (h c hc).2]

theorem bare?_of_digits {cs : List Char} (h : ∀ c ∈ cs, isDigit c = true) : bare? cs = some cs :=
  bare?_eq_self fun c hc =>
    ⟨isBlank_of_isDigit (h c hc), fun hc' => absurd (hc' ▸ h c hc) (by decide)⟩

theorem splitSign_of_digits {cs : List Char} (h : ∀ c ∈ cs, isDigit c = true) :
    splitSign cs = (false, cs) := by
  unfold splitSign
  split
  · exact absurd (h '-' (by simp)) (by decide)
  · exact absurd (h '+' (by simp)) (by decide)
  · rfl

theorem int?_of_digits {cs : List Char} (h : ∀ c ∈ cs, isDigit c = true) (ne : cs ≠ []) :
    int? cs = some (natOfDigits cs : Int) := by
  simpa [int?, bare?_of_digits h, splitSign_of_digits h, intOfDigits, ne] using h

end GraphSelect.Text
