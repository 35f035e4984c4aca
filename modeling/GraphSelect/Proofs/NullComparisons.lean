import GraphSelect.Proofs.Conditions

/-!
Comparisons with the constant `NULL`.

Such a comparison is `NULL` itself, whatever it compares, and so is its negation. Its filter does
not know this: it tests the value of the other side against null as if that were a value. No value
equals null or is ordered with it, but every value differs from it. So of the comparison and its
negation one keeps every row on which the other side has a value, and the other keeps none.
-/

namespace GraphSelect

variable {E D : Type} [DecidableEq E]

/-- Null is no value: properties, other constants and results of arithmetic differ from it, and no
value equals it or is ordered with it. -/
structure Executor.SetsNullApart (x : Executor E D) : Prop where
  property {e : E} {k : String} {d : D} (h : x.graph.property? e k = some d) : d ≠ x.ofValue .null
  constant {v : Value} (h : v ≠ .null) : x.ofValue v ≠ x.ofValue .null
  combine {a : Arithmetic} {b c d : D} (h : x.combine a b c = some d) : d ≠ x.ofValue .null
  negate {b d : D} (h : x.negate b = some d) : d ≠ x.ofValue .null
  compares (p : Comparison) {d : D} (h : d ≠ x.ofValue .null) :
    x.compares p d (x.ofValue .null) = decide (p = .notEqual)

namespace Executor

variable {x : Executor E D} {s : Scope}

lemma SetsNullApart.columnAt (hx : x.SetsNullApart) {row : String → E} {i : Identifier} {d : D}
    (h : x.columnAt s row i = some d) : d ≠ x.ofValue .null := by
  unfold Executor.columnAt at h
  split at h
  · exact hx.property h
  · simp at h

/-- A term that has a value is not null. -/
lemma SetsNullApart.term (hx : x.SetsNullApart) {col : Identifier → Prop}
    {column? : Identifier → Option D} (hcolumn : ∀ i d, column? i = some d → d ≠ x.ofValue .null)
    {n : Node} (hn : n.IsTerm col) {d : D} (h : n.term? x.toAlgebra column? = some d) :
    d ≠ x.ofValue .null := by
  cases hn with
  | column => exact hcolumn _ d h
  | @constant l hl =>
    simp only [Node.term?] at h
    cases h
    exact hx.constant hl
  | negate hf =>
    simp only [Node.term?, hf] at h
    obtain ⟨b, -, hd⟩ := Option.bind_eq_some_iff.1 h
    exact hx.negate hd
  | arithmetic hf =>
    simp only [Node.term?, hf] at h
    obtain ⟨_, _, -, -, hd⟩ := Option.map₂_eq_some_iff.1 (Option.join_eq_some_iff.1 h)
    exact hx.combine hd

end Executor

/-! ### Plain values -/

lemma Value.combine_ne_null {a : Arithmetic} {v w u : Value} (h : Value.combine a v w = some u) :
    u ≠ .null := by
  unfold Value.combine at h
  split at h <;> try split at h
  all_goals cases h
  all_goals nofun

lemma Value.negate_ne_null {v : Value} (h : v.quantity?.isSome) : v.negate ≠ .null := by
  rcases v with (_ | _ | _ | _ | _ | _ | _) | _ <;>
    simp_all [Value.negate, Scalar.negate, Value.quantity?, Scalar.quantity?]

lemma Value.compares_null (p : Comparison) {v : Value} (h : v ≠ .null) :
    Value.compares p v .null = decide (p = .notEqual) := by
  have hnone : Value.order? v .null = none := by
    rcases v with (_ | _ | _ | _ | _ | _ | _) | _ <;>
      simp_all [Value.order?, Value.number?, Value.quantity?, Scalar.quantity?]
  simp [Value.compares, hnone]

/-- Plain values keep null apart if no property of the graph is null. -/
lemma Reference.setsNullApart {g : Graph E Value}
    (h : ∀ e k v, g.property? e k = some v → v ≠ .null) :
    (Reference.executor Value.algebra g).SetsNullApart where
  property := h _ _ _
  constant := id
  combine := Value.combine_ne_null
  negate {v w} hw := by
    obtain ⟨hv, hw⟩ := Option.ite_none_right_eq_some.1 hw
    cases hw
    exact Value.negate_ne_null hv
  compares := Value.compares_null

lemma Graph.people_property (e : Nat) (k : String) (v : Value)
    (h : Graph.people.property? e k = some v) : v ≠ .null := by
  unfold Graph.people at h
  dsimp only at h
  split at h <;> cases h <;> nofun

/-! ### The two sides of `NULL` -/

namespace Node

/-- The comparisons of a term with a constant, which stands on either side. -/
inductive ComparedWith (n : Node) (l : Literal) (p : Comparison) : Node → Prop
  | right {f : Call} (hf : f.operator = .comparison p) :
      ComparedWith n l p (.call f [n, .literal l])
  | left {f : Call} (hf : f.operator = .comparison p) :
      ComparedWith n l p (.call f [.literal l, n])

variable {n m : Node} {l : Literal} {p : Comparison} {col : Identifier → Prop}

lemma Wraps.unique {o o' : Operand} (h : n.Wraps o) (h' : n.Wraps o') : o = o' :=
  Except.ok.inj (h.1.symm.trans h'.1)

/-- The operand of a term does not depend on what the columns have. -/
lemma IsTerm.wrapped_all (type : Operand → Outcome TypeName) (a : Algebra D) (hn : n.IsTerm col) :
    ∃ o, n.Wraps o ∧ o.Evaluable type col (fun _ => True) ∧
      ∀ column?, o.data? a type column? = n.term? a column? := by
  obtain ⟨o, hw, he, -⟩ := hn.wrapped type a fun _ => none
  refine ⟨o, hw, he, fun column? => ?_⟩
  obtain ⟨o', hw', -, hd⟩ := hn.wrapped type a column?
  rwa [hw.unique hw']

/-- The operand of a comparison with `NULL` holds where the other side has a value, if the
comparison asks for a difference. Its negation is guarded by that value. -/
lemma ComparedWith.wrapped {x : Executor E D} (hx : x.SetsNullApart)
    (type : Operand → Outcome TypeName) (hn : n.IsTerm col) (hl : l.native = .null)
    (hm : n.ComparedWith l p m) :
    ∃ o, m.Wraps o ∧ o.Evaluable type col (fun _ => True) ∧
      ∀ column?, (∀ i d, column? i = some d → d ≠ x.ofValue .null) →
        o.data? x.toAlgebra type column? =
          some (x.ofBool (decide (p = .notEqual) && (n.term? x.toAlgebra column?).isSome)) ∧
        o.guarded x.toAlgebra type column? = (n.term? x.toAlgebra column?).isSome := by
  obtain ⟨o, hw, he, hd⟩ := hn.wrapped_all type x.toAlgebra
  have hnull : (Node.literal l).Wraps (.constant l) := ⟨rfl, _, rfl⟩
  cases hm with
  | @right f hf =>
    obtain ⟨text, hw⟩ := hw.two (f := f) (by simp [hf]) hnull
    refine ⟨_, hw, .two (by simp [hf]) trivial he (.constant l), fun column? hcolumn => ⟨?_, ?_⟩⟩
    · cases h : n.term? x.toAlgebra column? with
      | none => simp [Operand.data?, hf, hd, h]
      | some d =>
        have hne := hx.compares p (hx.term hcolumn hn h)
        simp [Operand.data?, hf, hd, h, hl, hne]
    · simp [Operand.guarded, Operand.presentEach, Operand.data?, hf, hd]
  | @left f hf =>
    obtain ⟨text, hw⟩ := hnull.two (f := f) (by simp [hf]) hw
    refine ⟨_, hw, .two (by simp [hf]) trivial (.constant l) he, fun column? hcolumn => ⟨?_, ?_⟩⟩
    · cases h : n.term? x.toAlgebra column? with
      | none => simp [Operand.data?, hf, hd, h]
      | some d =>
        have hne : x.compares p (x.ofValue .null) d = decide (p = .notEqual) := by
          rw [← x.compares_flip, hx.compares p.flip (hx.term hcolumn hn h)]
          cases p <;> rfl
        simp [Operand.data?, hf, hd, h, hl, hne]
    · simp [Operand.guarded, Operand.presentEach, Operand.data?, hf, hd]

end Node

/-- **What filters do with comparisons with `NULL`.** The filter of a comparison of a term with the
constant `NULL` keeps a row exactly if the comparison is `<>` and the term has a value there. The
filter of its negation keeps a row exactly if the comparison is any other and the term has a value
there. -/
theorem filter_comparedWith_null (x : Executor E D) (hx : x.SetsNullApart) {s : Scope}
    (hs : s.isRowContext) {n m : Node} (hn : n.IsTerm s.Owns) {l : Literal} (hl : l.native = .null)
    {p : Comparison} (hm : n.ComparedWith l p m) {g : Call} (hg : g.operator = .not) :
    ∃ steps negated, (Operand.ofNode m).bind (·.filter s) = .ok steps ∧
      (Operand.ofNode (.call g [m])).bind (·.filter s) = .ok negated ∧
      ∀ (row : String → E) (t : Traverser E D), Executor.StandsAt s row t →
        x.run steps t = t.keptIf (decide (p = .notEqual) &&
          (n.term? x.toAlgebra (x.columnAt s row)).isSome) ∧
        x.run negated t = t.keptIf (decide (p ≠ .notEqual) &&
          (n.term? x.toAlgebra (x.columnAt s row)).isSome) := by
  obtain ⟨o, hw, he, hdata⟩ := hm.wrapped hx (Operand.type s) hn hl
  obtain ⟨text, hw'⟩ := hw.one (f := g) (by simp [hg])
  have he' : (Operand.apply g text text [o]).Evaluable (Operand.type s) s.Owns fun _ => True :=
    .one (by simp [hg]) trivial he
  obtain ⟨steps, hsteps, hrun⟩ := x.exists_filter hs he
  obtain ⟨negated, hnegated, hrun'⟩ := x.exists_filter hs he'
  refine ⟨steps, negated, by rw [hw.1]; exact hsteps, by rw [hw'.1]; exact hnegated,
    fun row t ht => ?_⟩
  obtain ⟨hd, hguard⟩ := hdata (x.columnAt s row) fun _ _ => hx.columnAt
  have hnot : (Operand.apply g text text [o]).data? x.toAlgebra (Operand.type s)
      (x.columnAt s row) = some (x.ofBool (decide (p ≠ .notEqual) &&
        (n.term? x.toAlgebra (x.columnAt s row)).isSome)) := by
    simp only [Operand.data?, hg, hguard, hd]
    cases (n.term? x.toAlgebra (x.columnAt s row)).isSome <;> simp
  constructor
  · simp [hrun row t ht, hd]
  · simp [hrun' row t ht, hnot]

section

open Node People

/-- `NOT p.age = NULL` -/
def People.ageUnknown : Node :=
  .apply (.comparison .equal) [column "p" "age", .literal ⟨.null, .null⟩]

/-- The first person, whose age is known, is not dropped by the negation. -/
theorem People.filter_ageUnknown :
    ∃ steps negated, (Operand.ofNode ageUnknown).bind (·.filter scope) = .ok steps ∧
      (Operand.ofNode (.apply .not [ageUnknown])).bind (·.filter scope) = .ok negated ∧
      executor.run steps (traverser 0 1) = [] ∧
      executor.run negated (traverser 0 1) = [traverser 0 1] := by
  obtain ⟨steps, negated, hsteps, hnegated, hrun⟩ := filter_comparedWith_null executor
    (Reference.setsNullApart Graph.people_property) (s := scope) rfl
    (.column (owns_column (.inl rfl) (.inr rfl)))
    (l := ⟨.null, .null⟩) rfl (p := .equal) (m := ageUnknown) (.right rfl)
    (g := ⟨.not, false, none⟩) rfl
  obtain ⟨hkeep, hkeep'⟩ := hrun _ _ (standsAt 0 1)
  exact ⟨steps, negated, hsteps, hnegated, hkeep, hkeep'⟩

/-- Not every filter of a comparison with `NULL` drops all rows. -/
theorem People.filter_keeps_different_from_null :
    ∃ steps, (Operand.ofNode (.apply (.comparison .notEqual)
        [column "p" "age", .literal ⟨.null, .null⟩])).bind (·.filter scope) = .ok steps ∧
      executor.run steps (traverser 0 1) = [traverser 0 1] :=
  ⟨_, rfl, rfl⟩

end

end GraphSelect
