import GraphSelect.Proofs.Columns
import Mathlib.Data.Finset.Card
import Mathlib.Order.Bounds.Basic

/-!
The search for a new name.

A name that is used already is tried with 0, 1, 2 and so on behind it, until a name is found that is
not used. Nothing bounds the numbers. But different numbers make different names, and none of these
is the name itself, so the used names run out before as many names are tried as there are used ones,
and the search ends with the least number that makes the name new.
-/

namespace GraphSelect

variable {used : List String} {name : String}

/-- A search from a number on, with the name that it ends with and how many names it has tried. -/
inductive Finds (used : List String) (name : String) : Nat → String → Nat → Prop
  | free {n : Nat} (h : name ++ Text.ofInt n ∉ used) : Finds used name n (name ++ Text.ofInt n) 1
  | taken {n tries : Nat} {found : String} (h : name ++ Text.ofInt n ∈ used)
      (hrest : Finds used name (n + 1) found tries) : Finds used name n found (tries + 1)

/-- A search ends in one way only. -/
lemma Finds.unique {n tries tries' : Nat} {found found' : String}
    (h : Finds used name n found tries) (h' : Finds used name n found' tries') :
    found = found' ∧ tries = tries' := by
  induction h generalizing found' tries' with
  | free hfree =>
    cases h' with
    | free => exact ⟨rfl, rfl⟩
    | taken htaken => exact absurd htaken hfree
  | taken htaken _ ih =>
    cases h' with
    | free hfree => exact absurd htaken hfree
    | taken _ hrest =>
      obtain ⟨rfl, rfl⟩ := ih hrest
      exact ⟨rfl, rfl⟩

/-- The search tries the used names up to the first one that is free. -/
lemma finds_of_free {n : Nat} (hfree : name ++ Text.ofInt n ∉ used) (k : Nat) (hk : k ≤ n)
    (htaken : ∀ m, k ≤ m → m < n → name ++ Text.ofInt (m : Nat) ∈ used) :
    Finds used name k (name ++ Text.ofInt n) (n - k + 1) := by
  induction hk using Nat.decreasingInduction with
  | self => simpa using Finds.free hfree
  | of_succ k hk ih =>
    have hrest := ih fun m hm => htaken m (by omega)
    rw [show n - k = n - (k + 1) + 1 by omega]
    exact .taken (htaken k (Nat.le_refl k) hk) hrest

/-- A number makes a name longer. -/
lemma append_ofInt_ne (name : String) (n : Nat) : name ++ Text.ofInt n ≠ name := by
  intro h
  have hnil : (Text.ofInt n).toList = [] := by
    simpa using congrArg String.toList h
  simp [Text.ofInt, Text.digitsOf_ne_nil] at hnil

/-- If a name and the first names with a number are all used, there are fewer of these numbers than
used names. -/
lemma lt_card_of_taken {n : Nat} (hname : name ∈ used)
    (htaken : ∀ m < n, name ++ Text.ofInt (m : Nat) ∈ used) : n < used.toFinset.card := by
  have hnumbered : name ∉ (Finset.range n).image fun m : Nat => name ++ Text.ofInt m := by
    simpa using fun m _ => append_ofInt_ne name m
  have hsubset : insert name ((Finset.range n).image fun m : Nat => name ++ Text.ofInt m) ⊆
      used.toFinset := by
    refine Finset.insert_subset (List.mem_toFinset.2 hname) fun s hs => ?_
    obtain ⟨m, hm, rfl⟩ := Finset.mem_image.1 hs
    exact List.mem_toFinset.2 (htaken m (Finset.mem_range.1 hm))
  have hcard := Finset.card_le_card hsubset
  rw [Finset.card_insert_of_notMem hnumbered,
    Finset.card_image_of_injective _ (append_ofInt_injective name), Finset.card_range] at hcard
  exact hcard

/-- The new name of a used one has the first number behind it that makes it new. -/
lemma exists_freshName (hname : name ∈ used) :
    ∃ n : Nat, freshName used name = name ++ Text.ofInt n ∧ name ++ Text.ofInt n ∉ used ∧
      ∀ m < n, name ++ Text.ofInt (m : Nat) ∈ used := by
  obtain ⟨k, hk, hfree⟩ := exists_numbered used name
  have hfound : ((List.range (used.length + 1)).find?
      ((!used.contains ·) ∘ fun n : Nat => name ++ Text.ofInt n)).isSome :=
    List.find?_isSome.2 ⟨k, hk, by simpa using hfree⟩
  obtain ⟨n, hn⟩ := Option.isSome_iff_exists.1 hfound
  obtain ⟨hnew, -, hbefore⟩ := List.find?_range_eq_some.1 hn
  refine ⟨n, ?_, by simpa using hnew, by simpa using hbefore⟩
  simp only [freshName, List.contains_iff_mem, hname, if_true, List.find?_map, hn, Option.map_some,
    Option.getD_some]

/-- **A new name is found, and it is the first one.** A name that is not used stays as it is. To one
that is used the least number is added that makes it new, and trying one number after the other from
0 on ends with this name, after no more tries than there are used names. -/
theorem freshName_isFirst (used : List String) (name : String) :
    freshName used name ∉ used ∧ (name ∉ used → freshName used name = name) ∧
      (name ∈ used → ∃ n : Nat, freshName used name = name ++ Text.ofInt n ∧
        IsLeast {k : Nat | name ++ Text.ofInt k ∉ used} n ∧ n + 1 ≤ used.toFinset.card ∧
        ∀ found tries, Finds used name 0 found tries ↔
          found = freshName used name ∧ tries = n + 1) := by
  refine ⟨freshName_notMem used name, freshName_eq_self, fun hname => ?_⟩
  obtain ⟨n, hn, hfree, htaken⟩ := exists_freshName hname
  refine ⟨n, hn, ⟨hfree, fun k hk => ?_⟩, lt_card_of_taken hname htaken, fun found tries => ?_⟩
  · by_contra hlt
    exact hk (htaken k (Nat.lt_of_not_le hlt))
  · have hfinds := finds_of_free hfree 0 (Nat.zero_le n) fun m _ => htaken m
    rw [← hn, Nat.sub_zero] at hfinds
    refine ⟨fun h => h.unique hfinds, ?_⟩
    rintro ⟨rfl, rfl⟩
    exact hfinds

/-- The search passes every used name that has a number. -/
theorem freshName_afterThree : freshName ["n", "n1", "n0"] "n" = "n2" ∧
    Finds ["n", "n1", "n0"] "n" 0 "n2" 3 := by
  obtain ⟨-, -, hused⟩ := freshName_isFirst ["n", "n1", "n0"] "n"
  obtain ⟨n, hn, ⟨hfree, hleast⟩, hcard, hfinds⟩ := hused (by simp)
  have hname : freshName ["n", "n1", "n0"] "n" = "n2" := rfl
  obtain rfl : n = 2 := append_ofInt_injective "n" (hn.symm.trans hname)
  exact ⟨hname, (hfinds _ _).2 ⟨hname.symm, rfl⟩⟩

end GraphSelect
