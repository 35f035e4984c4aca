import GraphSelect.Proofs.Rows
import GraphSelect.Proofs.Truth

/-!
Conditions as filters of rows.

The operand of a condition has the truth of the condition for its data, except where the condition
is `NULL`. There it is false, unless the condition leaks. So the filter of a condition keeps the rows
of which the condition is true and drops those of which it is false, and what it does with the others
depends on the negations: one that stands over a connective may keep a row it should drop.
-/

namespace GraphSelect

namespace Node

variable {D : Type}

/-! ### Operands of terms and conditions -/

/-- The operand of a node that has a text. -/
def Wraps (n : Node) (o : Operand) : Prop :=
  Operand.ofNode n = .ok o ∧ ∃ text, n.sql? = some text

lemma Wraps.ofNodes {ns : List Node} {os : List Operand} (h : List.Forall₂ Wraps ns os) :
    Operand.ofNodes ns = .ok os := by
  induction h with
  | nil => rfl
  | cons h _ ih => simp [Operand.ofNodes, h.1, ih]

lemma Wraps.call {f : Call} {ns : List Node} {os : List Operand}
    (hf : f.operator.family ≠ .unsupported) (h : List.Forall₂ Wraps ns os)
    (htext : ∃ text, (Node.call f ns).sql? = some text) :
    ∃ text, (Node.call f ns).Wraps (.apply f text text os) := by
  obtain ⟨text, ht⟩ := htext
  exact ⟨text, by simp [Operand.ofNode, hf, Wraps.ofNodes h, Operand.textOf, ht], text, ht⟩

lemma Wraps.one {f : Call} {n : Node} {o : Operand} (hf : f.operator.takesOne)
    (h : n.Wraps o) : ∃ text, (Node.call f [n]).Wraps (.apply f text text [o]) := by
  obtain ⟨u, hu⟩ := h.2
  refine Wraps.call ?_ (.cons h .nil) ?_
  · cases hop : f.operator <;> simp_all [Operator.family]
  · cases hop : f.operator <;> simp_all [sql?, sqlEach, callText?, Operator.form]

lemma Wraps.two {f : Call} {n m : Node} {o o' : Operand} (hf : f.operator.takesTwo)
    (h : n.Wraps o) (h' : m.Wraps o') :
    ∃ text, (Node.call f [n, m]).Wraps (.apply f text text [o, o']) := by
  obtain ⟨u, hu⟩ := h.2
  obtain ⟨u', hu'⟩ := h'.2
  refine Wraps.call ?_ (.cons h (.cons h' .nil)) ?_
  · cases hop : f.operator <;> simp_all [Operator.family]
  · cases hop : f.operator <;> simp_all [sql?, sqlEach, callText?, Operator.form]

section

variable {col : Identifier → Prop} (type : Operand → Outcome TypeName) (a : Algebra D)
  (column? : Identifier → Option D)

/-- A term becomes an operand with the value of the term. -/
lemma IsTerm.wrapped {n : Node} (h : n.IsTerm col) :
    ∃ o, n.Wraps o ∧ o.Evaluable type col (fun _ => True) ∧
      o.data? a type column? = n.term? a column? := by
  induction h with
  | @column i h =>
    exact ⟨.column i, ⟨rfl, _, rfl⟩, .column h, by simp [Operand.data?, term?]⟩
  | @constant l h =>
    refine ⟨.constant l, ⟨rfl, _, rfl⟩, .constant l, ?_⟩
    simp only [Operand.data?, term?]
  | @negate f n hf h ih =>
    obtain ⟨o, hw, he, hd⟩ := ih
    obtain ⟨text, hw⟩ := hw.one (f := f) (by simp [hf])
    refine ⟨_, hw, .one (by simp [hf]) trivial he, ?_⟩
    simp [Operand.data?, term?, hf, hd]
  | @arithmetic f o n m hf h h' ih ih' =>
    obtain ⟨p, hw, he, hd⟩ := ih
    obtain ⟨p', hw', he', hd'⟩ := ih'
    obtain ⟨text, hw⟩ := hw.two (f := f) (by simp [hf]) hw'
    refine ⟨_, hw, .two (by simp [hf]) trivial he he', ?_⟩
    simp [Operand.data?, term?, hf, hd, hd']

/-- A condition becomes an operand that is true of what the condition keeps. -/
lemma IsCondition.wrapped {n : Node} (h : n.IsCondition col) :
    ∃ o, n.Wraps o ∧ o.Evaluable type col (fun _ => True) ∧
      (o.data? a type column?).any a.isTrue = n.kept a column? ∧
      o.guarded a type column? = (n.isConnective || (n.truth? a column?).isSome) := by
  induction h with
  | @column i h =>
    refine ⟨.column i, ⟨rfl, _, rfl⟩, .column h, ?_, ?_⟩
    · cases hc : column? i <;> simp [Operand.data?, kept, truth?, leaks, term?, hc]
    · cases hc : column? i <;> simp [Operand.guarded, isConnective, truth?, term?, hc]
  | @constant l p h =>
    refine ⟨.constant l, ⟨rfl, _, rfl⟩, .constant l, ?_, ?_⟩
    · simp [Operand.data?, kept, truth?, leaks, term?, h]
    · simp [Operand.guarded, isConnective, truth?, term?, h]
  | @comparison f p n m hf h h' =>
    obtain ⟨o, hw, he, hd⟩ := h.wrapped type a column?
    obtain ⟨o', hw', he', hd'⟩ := h'.wrapped type a column?
    obtain ⟨text, hw⟩ := hw.two (f := f) (by simp [hf]) hw'
    refine ⟨_, hw, .two (by simp [hf]) trivial he he', ?_, ?_⟩
    · cases hn : n.term? a column? <;> cases hm : m.term? a column? <;>
        simp [Operand.data?, kept, truth?, leaks, hf, hd, hd', hn, hm]
    · cases hn : n.term? a column? <;> cases hm : m.term? a column? <;>
        simp [Operand.guarded, Operand.presentEach, isConnective, truth?, hf, hd, hd', hn, hm]
  | @isNull f n hf h =>
    obtain ⟨o, hw, he, hd⟩ := h.wrapped type a column?
    obtain ⟨text, hw⟩ := hw.one (f := f) (by simp [hf])
    refine ⟨_, hw, .one (by simp [hf]) trivial he, ?_, ?_⟩
    · cases hn : n.term? a column? <;> simp [Operand.data?, kept, truth?, leaks, hf, hd, hn]
    · simp [Operand.guarded, isConnective, truth?, hf]
  | @isNotNull f n hf h =>
    obtain ⟨o, hw, he, hd⟩ := h.wrapped type a column?
    obtain ⟨text, hw⟩ := hw.one (f := f) (by simp [hf])
    refine ⟨_, hw, .one (by simp [hf]) trivial he, ?_, ?_⟩
    · simp [Operand.data?, kept, truth?, leaks, hf, hd]
    · simp [Operand.guarded, isConnective, truth?, hf]
  | @not f n hf h ih =>
    obtain ⟨o, hw, he, hk, hg⟩ := ih
    obtain ⟨text, hw⟩ := hw.one (f := f) (by simp [hf])
    refine ⟨_, hw, .one (by simp [hf]) trivial he, ?_, ?_⟩
    · simp [Operand.data?, kept_not, hf, hk, hg]
    · simp [Operand.guarded, isConnective, hf]
  | @and f n m hf h h' ih ih' =>
    obtain ⟨o, hw, he, hk, -⟩ := ih
    obtain ⟨o', hw', he', hk', -⟩ := ih'
    obtain ⟨text, hw⟩ := hw.two (f := f) (by simp [hf]) hw'
    refine ⟨_, hw, .two (by simp [hf]) trivial he he', ?_, ?_⟩
    · simp [Operand.data?, kept_and, hf, hk, hk']
    · simp [Operand.guarded, isConnective, hf]
  | @or f n m hf h h' ih ih' =>
    obtain ⟨o, hw, he, hk, -⟩ := ih
    obtain ⟨o', hw', he', hk', -⟩ := ih'
    obtain ⟨text, hw⟩ := hw.two (f := f) (by simp [hf]) hw'
    refine ⟨_, hw, .two (by simp [hf]) trivial he he', ?_, ?_⟩
    · simp [Operand.data?, kept_or, hf, hk, hk']
    · simp [Operand.guarded, isConnective, hf]

end

end Node

/-! ### The filter of a condition -/

namespace Executor

variable {E D : Type} [DecidableEq E] {x : Executor E D} {s : Scope}

/-- The filter of an operand does not depend on the row that it is applied to. -/
lemma exists_filter (x : Executor E D) (hs : s.isRowContext) {o : Operand}
    (ho : o.Evaluable (Operand.type s) s.Owns fun _ => True) :
    ∃ steps, o.filter s = .ok steps ∧
      ∀ (row : String → E) (t : Traverser E D), StandsAt s row t → x.run steps t =
        t.keptIf ((o.data? x.toAlgebra (Operand.type s) (x.columnAt s row)).any x.isTrue) := by
  -- Some row of some graph shows that there are steps.
  obtain ⟨t, ht⟩ := exists_standsAt (D := Value) s fun _ => ()
  obtain ⟨steps, hsteps, -⟩ :=
    ht.filter (x := Reference.executor Value.algebra Graph.point) hs ho fun _ => id
  refine ⟨steps, hsteps, fun row t ht => ?_⟩
  obtain ⟨steps', hsteps', hrun⟩ := ht.filter (x := x) hs ho fun _ => id
  rw [hsteps] at hsteps'
  cases hsteps'
  exact hrun

/-- The filter of a condition keeps the rows that the condition keeps. -/
lemma run_filter (hs : s.isRowContext) {n : Node} (hn : n.IsCondition s.Owns) :
    ∃ steps, (Operand.ofNode n).bind (·.filter s) = .ok steps ∧
      ∀ (row : String → E) (t : Traverser E D), StandsAt s row t →
        x.run steps t = t.keptIf (n.kept x.toAlgebra (x.columnAt s row)) := by
  obtain ⟨o, ⟨ho, -⟩, he, -⟩ := hn.wrapped (Operand.type s) x.toAlgebra fun _ => none
  obtain ⟨steps, hsteps, hrun⟩ := x.exists_filter hs he
  refine ⟨steps, by rw [ho]; exact hsteps, fun row t ht => ?_⟩
  obtain ⟨o', ⟨ho', -⟩, -, hk, -⟩ := hn.wrapped (Operand.type s) x.toAlgebra (x.columnAt s row)
  rw [ho] at ho'
  cases ho'
  rw [hrun row t ht, hk]

end Executor

variable {E D : Type} [DecidableEq E]

/-- **What filters decide.** The filter of a condition keeps the rows of which the condition is
true, and drops those of which it is false. -/
theorem filter_decides (x : Executor E D) {s : Scope} (hs : s.isRowContext) {n : Node}
    (hn : n.IsCondition s.Owns) :
    ∃ steps, (Operand.ofNode n).bind (·.filter s) = .ok steps ∧
      ∀ (row : String → E) (t : Traverser E D), Executor.StandsAt s row t →
        (n.truth? x.toAlgebra (x.columnAt s row) = some true → x.run steps t = [t]) ∧
        (n.truth? x.toAlgebra (x.columnAt s row) = some false → x.run steps t = []) := by
  obtain ⟨steps, hsteps, hrun⟩ := Executor.run_filter (x := x) hs hn
  refine ⟨steps, hsteps, fun row t ht => ⟨fun h => ?_, fun h => ?_⟩⟩
  · simp [hrun row t ht, Node.kept_of_truth h]
  · simp [hrun row t ht, Node.kept_of_truth h]

section

open Node People

/-- `(NOT 5 > p.age OR q.age IS NOT NULL) AND p.name <> q.name` -/
def People.condition : Node :=
  .apply .and
    [.apply .or [.apply .not [.apply (.comparison .greater) [number 5, column "p" "age"]],
      .apply .isNotNull [column "q" "age"]],
    .apply (.comparison .notEqual) [column "p" "name", column "q" "name"]]

lemma People.isCondition_condition : condition.IsCondition scope.Owns := by
  have term {t n : String} (ht : t = "p" ∨ t = "q") (hn : n = "name" ∨ n = "age") :
      (column t n).IsTerm scope.Owns := .column (owns_column ht hn)
  have five : (number 5).IsTerm scope.Owns := .constant (by simp [Literal.native])
  exact .and rfl
    (.or rfl (.not rfl (.comparison rfl five (term (.inl rfl) (.inr rfl))))
      (.isNotNull rfl (term (.inr rfl) (.inr rfl))))
    (.comparison rfl (term (.inl rfl) (.inl rfl)) (term (.inr rfl) (.inl rfl)))

/-- The first person with the second is kept, and with itself is dropped. -/
theorem People.filter_condition :
    ∃ steps, (Operand.ofNode condition).bind (·.filter scope) = .ok steps ∧
      executor.run steps (traverser 0 1) = [traverser 0 1] ∧
      executor.run steps (traverser 0 0) = [] := by
  obtain ⟨steps, hsteps, hrun⟩ := filter_decides executor (s := scope) rfl isCondition_condition
  exact ⟨steps, hsteps, (hrun _ _ (standsAt 0 1)).1 (by decide),
    (hrun _ _ (standsAt 0 0)).2 (by decide)⟩

end

/-- **What filters do with `NULL`.** The filter of a condition drops a row of which the condition is
`NULL` exactly if the condition does not leak there, which it never does as long as no negation
stands over a connective. -/
theorem filter_drops_null_iff (x : Executor E D) {s : Scope} (hs : s.isRowContext) {n : Node}
    (hn : n.IsCondition s.Owns) :
    ∃ steps, (Operand.ofNode n).bind (·.filter s) = .ok steps ∧
      ∀ (row : String → E) (t : Traverser E D), Executor.StandsAt s row t →
        n.truth? x.toAlgebra (x.columnAt s row) = none →
        (x.run steps t = [] ↔ n.leaks x.toAlgebra (x.columnAt s row) = false) ∧
        (n.isGuarded → x.run steps t = []) := by
  obtain ⟨steps, hsteps, hrun⟩ := Executor.run_filter (x := x) hs hn
  refine ⟨steps, hsteps, fun row t ht h => ?_⟩
  rw [hrun row t ht, Node.kept_of_null h]
  constructor
  · cases n.leaks x.toAlgebra (x.columnAt s row) <;> simp
  · intro hg
    simp [Node.leaks_of_isGuarded hg]

section

open Node People

/-- `NOT (NOT p.age = 30)` -/
def People.doubleNegation : Node :=
  .apply .not [.apply .not [.apply (.comparison .equal) [column "p" "age", number 30]]]

lemma People.isCondition_doubleNegation : doubleNegation.IsCondition scope.Owns :=
  .not rfl (.not rfl (.comparison rfl (.column (owns_column (.inl rfl) (.inr rfl)))
    (.constant (by simp [Literal.native]))))

/-- The second person, whose age is not known, is not dropped. -/
theorem People.filter_doubleNegation :
    ∃ steps, (Operand.ofNode doubleNegation).bind (·.filter scope) = .ok steps ∧
      executor.run steps (traverser 1 0) ≠ [] := by
  obtain ⟨steps, hsteps, hrun⟩ :=
    filter_drops_null_iff executor (s := scope) rfl isCondition_doubleNegation
  refine ⟨steps, hsteps, fun hdrop => ?_⟩
  have := ((hrun _ _ (standsAt 1 0) (by decide)).1).1 hdrop
  revert this
  decide

/-- Not every filter drops the rows of which its condition is `NULL`. -/
theorem People.filter_keeps_null :
    ∃ steps, (Operand.ofNode doubleNegation).bind (·.filter scope) = .ok steps ∧
      doubleNegation.truth? executor.toAlgebra (executor.columnAt scope (row 1 0)) = none ∧
      executor.run steps (traverser 1 0) = [traverser 1 0] := by
  obtain ⟨steps, hsteps, hrun⟩ :=
    Executor.run_filter (x := executor) (s := scope) rfl isCondition_doubleNegation
  refine ⟨steps, hsteps, by decide, ?_⟩
  have hkept :
      doubleNegation.kept executor.toAlgebra (executor.columnAt scope (row 1 0)) = true := by decide
  rw [hrun _ _ (standsAt 1 0), hkept, Traverser.keptIf_true]

end

end GraphSelect
