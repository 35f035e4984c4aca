import GraphSelect.Operand.Steps
import GraphSelect.Proofs.Execution
import Mathlib.Data.Option.NAry

/-!
What is read by steps that produce a value, and what the steps that are built around them do with
it.

A column is read where its table is at hand, as a property of an element, or where rows are
grouped, as a key of the group. Either way the steps of the column give what the traverser sees for
it, and only this is used of them.
-/

namespace GraphSelect

variable {E D : Type}

namespace Executor

variable [DecidableEq E] (x : Executor E D)

/-- What a traverser at a row reaches under the name of a table. -/
def Reaches (s : Scope) (t : Traverser E D) (name : String) (e : E) : Prop :=
  if s.isSingleTable then t.here = .element e else t.named? name = some (.element e)

/-- What a traverser reads for a column: a property at a row, or a key at a group. -/
inductive Sees (s : Scope) (t : Traverser E D) (i : Identifier) : Option D → Prop
  | row {b : Binding} {c : Column} {e : E} (hs : s.isRowContext = true)
      (ho : s.owner i = .ok (b, c)) (he : Reaches s t b.name e) :
      Sees s t i (x.graph.property? e c.property)
  | key {b : Binding} {c : Column} {d : Option D} (hs : s.isRowContext = false)
      (ho : s.owner i = .ok (b, c)) (hk : s.isGroupKey (Scope.groupKey b.name c.property) = true)
      (hd : x.run (Scope.groupKeySteps (Scope.groupKey b.name c.property)) t = t.reading d) :
      Sees s t i d

/-! ### Steps behind a value -/

variable {x} {s : Scope} {t : Traverser E D} {v w : Steps} {d d' : Option D}

lemma run_reading (h : x.run v t = t.reading d) (after : Steps) (ha : after.all Step.isLocal) :
    x.run (v ++ after) t = (d.map fun d => x.run after (t.moved (.data d))).getD [] := by
  rw [x.run_append _ _ _ ha, h, Traverser.flatMap_reading]

lemma run_whereEmits_reading (h : x.run v t = t.reading d) :
    x.run [.whereEmits v] t = t.keptIf d.isSome := by
  rw [x.run_whereEmits, h]
  simp

lemma run_not_reading (h : x.run v t = t.reading d) : x.run [.not v] t = t.keptIf d.isNone := by
  rw [x.run_not, h]
  simp

lemma run_whereSatisfies (c : Comparison) (k : Value) (h : x.run v t = t.reading d) :
    x.run [.whereEmits (v ++ [.satisfies c k])] t =
      t.keptIf (d.any fun d => x.compares c d (x.ofValue k)) := by
  rw [x.run_whereEmits, run_reading h _ rfl]
  cases d with
  | none => rfl
  | some d =>
    rw [Option.map_some, Option.getD_some, x.run_satisfies c k d _ rfl]
    simp

lemma run_holds (h : x.run v t = t.reading d) : x.run (holds v) t = t.keptIf (d.any x.isTrue) :=
  run_whereSatisfies .equal (.bool true) h

lemma run_truthOf {b : Bool} (h : x.run v t = t.keptIf b) :
    x.run (truthOf v) t = t.reading (some (x.ofBool b)) := by
  rw [truthOf, x.run_choose, h]
  cases b <;> simp [x.run_constant, Algebra.ofBool]

lemma run_negated (h : x.run v t = t.reading d) :
    x.run (v ++ [.math "-_"]) t = t.reading (d.bind x.negate) := by
  rw [run_reading h _ rfl]
  cases d with
  | none => rfl
  | some d =>
    rw [Option.map_some, Option.getD_some, x.run_negate d _ rfl]
    rfl

lemma run_spelled (h : x.run v t = t.reading d) :
    x.run (v ++ [.asString]) t = t.reading (d.bind x.spell) := by
  rw [run_reading h _ rfl]
  cases d with
  | none => rfl
  | some d =>
    rw [Option.map_some, Option.getD_some, x.run_asString d _ rfl]
    rfl

/-! ### Pairs of values -/

lemma run_pair (hv : x.run v t = t.reading d) (hw : x.run w t = t.reading d') :
    ∃ m, x.run (pair v w) t = [t.moved (.entries m)] ∧
      dataAt? m "lhs" "rhs" = Option.map₂ Prod.mk d d' := by
  refine ⟨_, x.run_project ["lhs", "rhs"] [v, w] t rfl, ?_⟩
  cases d <;> cases d' <;> simp only [List.map_cons, List.map_nil, hv, hw] <;> rfl

lemma run_comparePair (c : Comparison) (hv : x.run v t = t.reading d)
    (hw : x.run w t = t.reading d') :
    x.run [.whereEmits (pair v w ++ [.whereEntries "lhs" c "rhs"])] t =
      t.keptIf ((Option.map₂ (x.compares c) d d').getD false) := by
  obtain ⟨m, hm, hd⟩ := run_pair hv hw
  rw [x.run_whereEmits, x.run_append _ _ _ rfl, hm]
  simp only [List.flatMap_cons, List.flatMap_nil, List.append_nil]
  rw [x.run_whereEntries _ _ _ m _ rfl, hd]
  cases d <;> cases d' <;> simp

lemma run_combinePair (o : Arithmetic) (hv : x.run v t = t.reading d)
    (hw : x.run w t = t.reading d') :
    x.run (pair v w ++ [.math ("lhs " ++ o.symbol ++ " rhs")]) t =
      t.reading (Option.map₂ (x.combine o) d d').join := by
  obtain ⟨m, hm, hd⟩ := run_pair hv hw
  rw [x.run_append _ _ _ rfl, hm]
  simp only [List.flatMap_cons, List.flatMap_nil, List.append_nil]
  rw [x.run_combine o m _ rfl, hd]
  cases d <;> cases d' <;> simp [Traverser.reading]

/-! ### Columns -/

/-- A step behind the place of a table is a step at the element there. -/
lemma run_select_element {l : String} {e : E} (h : t.named? l = some (.element e)) (after : Steps)
    (ha : after.all Step.isLocal) :
    x.run (.select [l] :: after) t = x.run after (t.moved (.element e)) := by
  rw [← List.singleton_append, x.run_append _ _ _ ha, x.run_select, h]
  simp

lemma Sees.columnSteps {i : Identifier} (h : x.Sees s t i d) :
    ∃ v, s.columnSteps i = .ok v ∧ x.run v t = t.reading d := by
  cases h with
  | @row b c e hs ho he =>
    refine ⟨s.propertySteps b.name c.property, by simp [Scope.columnSteps, ho, hs], ?_⟩
    unfold Scope.propertySteps
    unfold Reaches at he
    split
    · rw [if_pos ‹_›] at he
      exact x.run_values _ _ _ he
    · rw [if_neg ‹_›] at he
      rw [run_select_element he _ rfl, x.run_values _ e _ rfl]
      simp [Traverser.reading]
  | @key b c d hs ho hk hd =>
    exact ⟨_, by simp [Scope.columnSteps, ho, hs, hk], hd⟩

/-- A test of the element of a column is a filter of the row. -/
lemma run_columnFilter {i : Identifier} {b : Binding} {c : Column} {e : E} {p : Bool}
    {f : String → Step} (ho : s.owner i = .ok (b, c)) (he : Reaches s t b.name e)
    (hl : (f c.property).isLocal)
    (hf : ∀ u : Traverser E D, u.here = .element e → x.run [f c.property] u = u.keptIf p) :
    ∃ g, Operand.columnFilter s i f = .ok g ∧ g.all Step.isLocal ∧ x.run g t = t.keptIf p := by
  refine ⟨s.elementFilter b.name [f c.property], by simp [Operand.columnFilter, ho], ?_⟩
  unfold Scope.elementFilter
  unfold Reaches at he
  split
  · rw [if_pos ‹_›] at he
    exact ⟨by simpa using hl, hf t he⟩
  · rw [if_neg ‹_›] at he
    refine ⟨rfl, ?_⟩
    rw [x.run_whereEmits, run_select_element he _ (by simpa using hl), hf _ rfl]
    simp

/-- A column is tested by its property at a row, and else by its value. -/
lemma Sees.test {i : Identifier} (h : x.Sees s t i d) (p : Option D → Bool) (f : String → Step)
    (g : Steps → Steps) (hl : ∀ k, (f k).isLocal) (hgl : ∀ w, (g w).all Step.isLocal)
    (hf : ∀ k e (u : Traverser E D), u.here = .element e →
      x.run [f k] u = u.keptIf (p (x.graph.property? e k)))
    (hg : ∀ w, x.run w t = t.reading d → x.run (g w) t = t.keptIf (p d)) :
    ∃ w, (if s.isRowContext then Operand.columnFilter s i f else (s.columnSteps i).map g) = .ok w ∧
      w.all Step.isLocal ∧ x.run w t = t.keptIf (p d) := by
  obtain ⟨v, hv, hr⟩ := h.columnSteps
  cases h with
  | @row b c e hs ho he =>
    rw [if_pos hs]
    exact run_columnFilter ho he (hl _) (hf _ e)
  | key hs =>
    rw [if_neg (by simp [hs]), hv]
    exact ⟨g v, rfl, hgl v, hg v hr⟩

end Executor

end GraphSelect
