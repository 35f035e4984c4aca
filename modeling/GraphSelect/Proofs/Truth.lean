import GraphSelect.Query.Node
import GraphSelect.Proofs.Execution
import Mathlib.Data.Option.NAry

/-!
The truth of conditions, and what their filters keep.

Truth has three values, for a comparison with something missing is neither true nor false. A filter
either keeps a row or drops it. The filter of a condition keeps what the condition is true of, and
besides it what leaks: a negation asks only that its operand has what it compares, so a negated
connective that is `NULL` is kept if the connective is not.
-/

namespace GraphSelect

/-- True, false, or `NULL`, which is none of them. -/
abbrev Truth := Option Bool

namespace Truth

def not : Truth → Truth := Option.map (!·)

def and : Truth → Truth → Truth
  | some false, _ | _, some false => some false
  | some true, some true => some true
  | _, _ => none

def or : Truth → Truth → Truth
  | some true, _ | _, some true => some true
  | some false, some false => some false
  | _, _ => none

end Truth

namespace Node

variable {D : Type}

/-- Terms of columns, constants other than `NULL` and arithmetic. -/
inductive IsTerm (col : Identifier → Prop) : Node → Prop
  | column {i : Identifier} (h : col i) : IsTerm col (.identifier i)
  | constant {l : Literal} (h : l.native ≠ .null) : IsTerm col (.literal l)
  | negate {f : Call} {n : Node} (hf : f.operator = .negate) (h : IsTerm col n) :
      IsTerm col (.call f [n])
  | arithmetic {f : Call} {a : Arithmetic} {n m : Node} (hf : f.operator = .arithmetic a)
      (h : IsTerm col n) (h' : IsTerm col m) : IsTerm col (.call f [n, m])

/-- Conditions put together from columns that hold truth values, comparisons of terms and tests
for `NULL`. -/
inductive IsCondition (col : Identifier → Prop) : Node → Prop
  | column {i : Identifier} (h : col i) : IsCondition col (.identifier i)
  | constant {l : Literal} {p : Bool} (h : l.native = .bool p) : IsCondition col (.literal l)
  | comparison {f : Call} {p : Comparison} {n m : Node} (hf : f.operator = .comparison p)
      (h : IsTerm col n) (h' : IsTerm col m) : IsCondition col (.call f [n, m])
  | isNull {f : Call} {n : Node} (hf : f.operator = .isNull) (h : IsTerm col n) :
      IsCondition col (.call f [n])
  | isNotNull {f : Call} {n : Node} (hf : f.operator = .isNotNull) (h : IsTerm col n) :
      IsCondition col (.call f [n])
  | not {f : Call} {n : Node} (hf : f.operator = .not) (h : IsCondition col n) :
      IsCondition col (.call f [n])
  | and {f : Call} {n m : Node} (hf : f.operator = .and) (h : IsCondition col n)
      (h' : IsCondition col m) : IsCondition col (.call f [n, m])
  | or {f : Call} {n m : Node} (hf : f.operator = .or) (h : IsCondition col n)
      (h' : IsCondition col m) : IsCondition col (.call f [n, m])

section

variable (a : Algebra D) (column? : Identifier → Option D)

/-- The value of a term. -/
def term? : Node → Option D
  | .identifier i => column? i
  | .literal l =>
    match l.native with
    | .null => none
    | v => some (a.ofValue v)
  | .call f [n] =>
    match f.operator with
    | .negate => (term? n).bind a.negate
    | _ => none
  | .call f [n, m] =>
    match f.operator with
    | .arithmetic o => (Option.map₂ (a.combine o) (term? n) (term? m)).join
    | _ => none
  | _ => none

/-- The truth of a condition. -/
def truth? : Node → Truth
  | .call f [n] =>
    match f.operator with
    | .isNull => some (n.term? a column?).isNone
    | .isNotNull => some (n.term? a column?).isSome
    | .not => (truth? n).not
    | _ => none
  | .call f [n, m] =>
    match f.operator with
    | .comparison p => Option.map₂ (a.compares p) (n.term? a column?) (m.term? a column?)
    | .and => (truth? n).and (truth? m)
    | .or => (truth? n).or (truth? m)
    | _ => none
  | n => (n.term? a column?).map a.isTrue

/-- Whether a condition is put together from others. -/
def isConnective : Node → Bool
  | .call f _ => f.operator = .and || f.operator = .or || f.operator = .not
  | _ => false

/-- Whether the filter of a condition that is `NULL` keeps the row all the same. A negation turns
what leaks through a connective into what does not, and the other way round. -/
def leaks : Node → Bool
  | .call f [n] =>
    f.operator = .not && n.isConnective && (truth? a column? n).isNone && !leaks n
  | .call f [n, m] =>
    (truth? a column? (.call f [n, m])).isNone &&
      match f.operator with
      | .and => (truth? a column? n = some true || leaks n) &&
          (truth? a column? m = some true || leaks m)
      | .or => leaks n || leaks m
      | _ => false
  | _ => false

/-- What the filter of a condition keeps. -/
def kept (n : Node) : Bool :=
  n.truth? a column? = some true || n.leaks a column?

end

variable {a : Algebra D} {column? : Identifier → Option D}

lemma truth?_of_leaks {n : Node} (h : n.leaks a column?) : n.truth? a column? = none := by
  unfold leaks at h
  split at h
  · next f n =>
    simp only [Bool.and_eq_true, decide_eq_true_eq, Option.isNone_iff_eq_none] at h
    obtain ⟨⟨⟨hf, -⟩, hn⟩, -⟩ := h
    simp [truth?, hf, hn, Truth.not]
  · simp only [Bool.and_eq_true, Option.isNone_iff_eq_none] at h
    exact h.1
  · simp at h

lemma leaks_eq_false {n : Node} {p : Bool} (h : n.truth? a column? = some p) :
    n.leaks a column? = false := by
  cases hl : n.leaks a column? with
  | false => rfl
  | true => simp [truth?_of_leaks hl] at h

lemma kept_of_truth {n : Node} {p : Bool} (h : n.truth? a column? = some p) :
    n.kept a column? = p := by
  cases p <;> simp [kept, h, leaks_eq_false h]

lemma kept_of_null {n : Node} (h : n.truth? a column? = none) :
    n.kept a column? = n.leaks a column? := by
  simp [kept, h]

/-- A negation keeps what its condition does not keep, if it is not `NULL` for want of a value. -/
lemma kept_not {f : Call} {n : Node} (hf : f.operator = .not) :
    (Node.call f [n]).kept a column? =
      ((n.isConnective || (n.truth? a column?).isSome) && !n.kept a column?) := by
  cases ht : n.truth? a column? with
  | none => simp [kept, truth?, leaks, Truth.not, hf, ht]
  | some p => simp [kept, truth?, leaks, Truth.not, hf, ht, leaks_eq_false ht]

lemma kept_and {f : Call} {n m : Node} (hf : f.operator = .and) :
    (Node.call f [n, m]).kept a column? = (n.kept a column? && m.kept a column?) := by
  rcases ht : n.truth? a column? with _ | _ | _ <;>
    rcases hu : m.truth? a column? with _ | _ | _ <;>
    simp [kept, truth?, leaks, Truth.and, hf, ht, hu, leaks_eq_false]

lemma kept_or {f : Call} {n m : Node} (hf : f.operator = .or) :
    (Node.call f [n, m]).kept a column? = (n.kept a column? || m.kept a column?) := by
  rcases ht : n.truth? a column? with _ | _ | _ <;>
    rcases hu : m.truth? a column? with _ | _ | _ <;>
    simp [kept, truth?, leaks, Truth.or, hf, ht, hu, leaks_eq_false]

/-- Whether every negation stands over something that is no connective. -/
def isGuarded : Node → Bool
  | .call f [n] => f.operator ≠ .not || !n.isConnective
  | .call f [n, m] => (f.operator ≠ .and && f.operator ≠ .or) || (isGuarded n && isGuarded m)
  | _ => true

lemma leaks_of_isGuarded {n : Node} (h : n.isGuarded) : n.leaks a column? = false := by
  fun_induction isGuarded n with
  | case1 f n => cases hc : n.isConnective <;> simp_all [leaks]
  | case2 f n m ih ih' =>
    cases hop : f.operator <;> simp_all [leaks]
    · intro hnull hn hm
      simp [truth?, hop, hn, hm, Truth.and] at hnull
  | case3 n h1 h2 =>
    unfold leaks
    split <;> simp_all

end Node

end GraphSelect
