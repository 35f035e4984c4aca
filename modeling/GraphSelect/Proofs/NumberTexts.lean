import GraphSelect.Number.Quantity
import GraphSelect.Proofs.Numbers

/-!
The characters of numbers.

However a number is laid out, its text has only digits, letters, signs and points. So it cannot be
taken for a text in quotes, and it ends where a bracket or a comma stands.
-/

namespace GraphSelect

open Text

/-- The characters that numbers are written with. -/
def isNumberChar (c : Char) : Bool :=
  c.isAlphanum || ['.', '-', '+'].contains c

lemma isNumberChar_digitsOf (n : Nat) : ∀ c ∈ digitsOf n, isNumberChar c = true := by
  intro c hc
  simp [isNumberChar, Char.isAlphanum, charIsDigit_of_mem_digitsOf hc]

lemma isNumberChar_zeros (k : Nat) : ∀ c ∈ List.replicate k '0', isNumberChar c = true := by
  intro c hc
  rw [List.eq_of_mem_replicate hc]
  decide

lemma isNumberChar_ofInt (n : Int) : ∀ c ∈ (ofInt n).toList, isNumberChar c = true := by
  rw [ofInt, String.toList_ofList]
  refine List.forall_mem_append.2 ⟨?_, isNumberChar_digitsOf _⟩
  split <;> decide

namespace Layout

variable {l : Layout} {digits : List Char}

lemma isNumberChar_positional (hdigits : ∀ c ∈ digits, isNumberChar c = true) (point : Int) :
    ∀ c ∈ l.positional digits point, isNumberChar c = true := by
  have hpoint : isNumberChar '.' = true := by decide
  unfold positional
  split
  · refine List.forall_mem_append.2 ⟨?_, hdigits⟩
    exact List.forall_mem_cons.2 ⟨by decide, List.forall_mem_cons.2 ⟨hpoint, isNumberChar_zeros _⟩⟩
  · split
    · refine List.forall_mem_append.2 ⟨fun c hc => hdigits c (List.mem_of_mem_take hc), ?_⟩
      exact List.forall_mem_cons.2 ⟨hpoint, fun c hc => hdigits c (List.mem_of_mem_drop hc)⟩
    · refine List.forall_mem_append.2
        ⟨List.forall_mem_append.2 ⟨hdigits, isNumberChar_zeros _⟩, ?_⟩
      split <;> decide

lemma isNumberChar_power (hmark : isNumberChar l.mark = true) (n : Int) :
    ∀ c ∈ l.power n, isNumberChar c = true := by
  refine List.forall_mem_cons.2 ⟨hmark, List.forall_mem_cons.2 ⟨?_, ?_⟩⟩
  · split <;> decide
  · exact List.forall_mem_append.2 ⟨isNumberChar_zeros _, isNumberChar_digitsOf _⟩

lemma isNumberChar_scientific (hmark : isNumberChar l.mark = true)
    (hdigits : ∀ c ∈ digits, isNumberChar c = true) (point : Int) :
    ∀ c ∈ l.scientific digits point, isNumberChar c = true := by
  unfold scientific
  refine List.forall_mem_append.2 ⟨?_, isNumberChar_power hmark _⟩
  split
  · simp
  · exact hdigits
  · obtain ⟨hd, hds⟩ := List.forall_mem_cons.1 hdigits
    exact List.forall_mem_cons.2 ⟨hd, List.forall_mem_cons.2 ⟨by decide, hds⟩⟩

end Layout

lemma isNumberChar_sign (negative : Bool) : ∀ c ∈ Decimal.sign negative, isNumberChar c = true := by
  cases negative <;> decide

lemma Decimal.isNumberChar_chars (d : Decimal) : ∀ c ∈ d.chars, isNumberChar c = true := by
  cases d with
  | finite negative n e =>
    refine List.forall_mem_append.2 ⟨isNumberChar_sign _, ?_⟩
    split
    · exact Layout.isNumberChar_positional (isNumberChar_digitsOf n) _
    · exact Layout.isNumberChar_scientific (by decide) (isNumberChar_digitsOf n) _
  | infinite negative => exact List.forall_mem_append.2 ⟨isNumberChar_sign _, by decide⟩
  | nan negative signaling payload =>
    refine List.forall_mem_append.2 ⟨List.forall_mem_append.2
      ⟨List.forall_mem_append.2 ⟨isNumberChar_sign _, ?_⟩, by decide⟩, ?_⟩
    · cases signaling <;> decide
    · split
      · simp
      · exact isNumberChar_digitsOf payload

lemma Double.isNumberChar_chars (x : Double) : ∀ c ∈ x.chars, isNumberChar c = true := by
  have htrim (n : Nat) : ∀ c ∈ trimZeros (digitsOf n), isNumberChar c = true := by
    intro c hc
    rw [trimZeros, List.mem_reverse] at hc
    exact isNumberChar_digitsOf n c (List.mem_reverse.1 (List.dropWhile_sublist _ |>.mem hc))
  have hlaid (n : Nat) (point : Int) (p : Prop) [Decidable p] :
      ∀ c ∈ (if p then layout.positional (trimZeros (digitsOf n)) point
        else layout.scientific (trimZeros (digitsOf n)) point), isNumberChar c = true := by
    split
    · exact Layout.isNumberChar_positional (htrim n) point
    · exact Layout.isNumberChar_scientific (by decide) (htrim n) point
  cases x with
  | finite negative m e =>
    cases m with
    | zero => exact List.forall_mem_append.2 ⟨isNumberChar_sign _, by decide⟩
    | succ m => exact List.forall_mem_append.2 ⟨isNumberChar_sign _, hlaid _ _ _⟩
  | infinite negative => exact List.forall_mem_append.2 ⟨isNumberChar_sign _, by decide⟩
  | nan => decide

end GraphSelect
