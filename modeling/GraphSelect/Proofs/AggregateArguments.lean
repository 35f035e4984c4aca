import GraphSelect.Proofs.SameNames
import GraphSelect.Workbench

/-!
Arguments of aggregates.

At a group an expression is planned anew, with keys in the place of columns and of calls. Only an
aggregate goes back to the rows, and there its argument becomes the steps that it becomes before
rows are grouped: what is planned for a row depends on the tables that are bound, and on the
grouping only in that there is a row to be seen. So a part of the argument is no key of the group,
even if it has the text of one, and it fails as it would fail without a grouping.
-/

namespace GraphSelect

/-! ### Scopes of the same rows -/

/-- Two scopes that see rows of the same tables. -/
structure Scope.SeesRowsOf (s t : Scope) : Prop where
  bindings : s.bindings = t.bindings
  isRowContext : s.isRowContext = true
  isRowContext' : t.isRowContext = true

namespace Scope.SeesRowsOf

variable {s t : Scope} (h : s.SeesRowsOf t)
include h

lemma isGroupKey (name : String) : s.isGroupKey name = t.isGroupKey name := by
  rw [isGroupKey_of_isRowContext h.isRowContext, isGroupKey_of_isRowContext h.isRowContext']

lemma owner (i : Identifier) : s.owner i = t.owner i := by
  simp only [Scope.owner, Scope.binding?, h.bindings]

lemma isSingleTable : s.isSingleTable = t.isSingleTable := by
  simp only [Scope.isSingleTable, h.bindings]

lemma columnSteps (i : Identifier) : s.columnSteps i = t.columnSteps i := by
  simp only [Scope.columnSteps, h.owner, h.isRowContext, h.isRowContext', if_true,
    Scope.propertySteps, h.isSingleTable]

end Scope.SeesRowsOf

namespace Operand

section

variable {s t : Scope} (h : s.SeesRowsOf t) (v v' : Outcome Steps) (o o' : Operand)
include h

lemma valueFrom_congr : o.valueFrom s v = o.valueFrom t v := by
  cases o <;> simp only [valueFrom, h.isGroupKey]

lemma filterFrom_congr : o.filterFrom s v = o.filterFrom t v := by
  cases o <;> simp only [filterFrom, valueFrom_congr h]

lemma columnFilter_congr (i : Identifier) (f : String → Step) :
    columnFilter s i f = columnFilter t i f := by
  simp only [columnFilter, h.owner, Scope.elementFilter, h.isSingleTable]

lemma presenceFrom_congr : o.presenceFrom s v = o.presenceFrom t v := by
  cases o <;> simp only [presenceFrom, valueFrom_congr h, columnFilter_congr h, h.isRowContext,
    h.isRowContext']

lemma absenceFrom_congr : o.absenceFrom s v = o.absenceFrom t v := by
  cases o <;> simp only [absenceFrom, valueFrom_congr h, columnFilter_congr h, h.isRowContext,
    h.isRowContext']

lemma compareConstant_congr (p : Comparison) (l : Literal) :
    compareConstant s p v o l = compareConstant t p v o l := by
  simp only [compareConstant, valueFrom_congr h, columnFilter_congr h, h.isRowContext,
    h.isRowContext']

lemma compare_congr (p : Comparison) : compare s p o o' v v' = compare t p o o' v v' := by
  simp only [compare, valueFrom_congr h, compareConstant_congr h]

lemma cast_congr : cast s o o' v = cast t o o' v := by
  have htype : o.type s = o.type t := by
    cases o <;> simp only [type, Scope.typeOf, h.owner]
  simp only [cast, valueFrom_congr h, htype]

variable {c : Call} {os : List Operand}

lemma presences_congr_scope (hos : ∀ o ∈ os, own s o = own t o) :
    presences s os = presences t os := by
  induction os with
  | nil => rfl
  | cons o os ih =>
    obtain ⟨ho, hos⟩ := List.forall_mem_cons.1 hos
    simp only [presences, ih hos, ho, presenceFrom_congr h]

lemma operation_congr (hos : ∀ o ∈ os, own s o = own t o ∧ guard s o = guard t o) :
    operation s c os = operation t c os := by
  obtain _ | ⟨x, _ | ⟨y, _ | _⟩⟩ := os
  · rfl
  · obtain ⟨hx, hguard⟩ := hos x (by simp)
    cases hop : c.operator
    case aggregate a =>
      -- There are rows, so no aggregate has steps.
      have hs := h.isRowContext
      have ht := h.isRowContext'
      rw [Scope.isRowContext] at hs ht
      simp only [operation, hop, hs, ht, if_true]
    all_goals
      simp only [operation, hop, hx, hguard, valueFrom_congr h, filterFrom_congr h,
        presenceFrom_congr h, absenceFrom_congr h]
  · obtain ⟨hx, -⟩ := hos x (by simp)
    obtain ⟨hy, -⟩ := hos y (by simp)
    cases hop : c.operator <;>
      simp only [operation, hop, hx, hy, valueFrom_congr h, filterFrom_congr h, compare_congr h,
        cast_congr h]
  · rfl

/-- What an operand becomes for a row depends on the tables that are bound only. -/
theorem own_congr : ∀ o : Operand, own s o = own t o ∧ guard s o = guard t o
  | .column i => by
    have hcolumn := h.columnSteps i
    simp only [own, guard, hcolumn, presenceFrom_congr h, and_self]
  | .apply c _ _ os => by
    have hos (o : Operand) (_ : o ∈ os) : own s o = own t o ∧ guard s o = guard t o := own_congr o
    refine ⟨operation_congr h hos, ?_⟩
    simp only [guard, presences_congr_scope h fun o ho => (hos o ho).1]
  | .constant _ | .target _ | .raw _ => ⟨rfl, rfl⟩

lemma value_congr : o.value s = o.value t := by
  rw [value, value, valueFrom_congr h, (own_congr h o).1]

end

/-! ### Aggregates at a group -/

/-- An expression that is an operand has a text. -/
lemma exists_text {n : Node} (ho : ofNode n = .ok o) : ∃ text, n.sql? = some text := by
  cases n with
  | call f ns =>
    rw [ofNode_call] at ho
    obtain ⟨os, -, ho⟩ := Outcome.bind_eq_ok.1 ho
    obtain ⟨text, htext, -⟩ := Outcome.bind_eq_ok.1 ho
    exact ⟨text, textOf_eq_ok.1 htext⟩
  | identifier | literal | typeSpec => exact ⟨_, by rw [Node.sql?]⟩
  | _ => simp [ofNode] at ho

variable {s : Scope} {c : Call} {a : Aggregate}

/-- An aggregate over the rows of a group, from the steps of its argument. -/
def reduced (keys : List String) (c : Call) (a : Aggregate) (argument : Steps) : Steps :=
  (if keys.isEmpty then [.unfold] else [.selectSide .values, .unfold]) ++ argument ++
    (if c.distinct then [.dedup] else []) ++ [.reduce a]

/-- The rows of a group are those that were there before rows were grouped. -/
lemma seesRowsOf_aggregated (hs : s.isGrouped = false) (keys : List String) :
    (s.startGrouping keys).aggregated.SeesRowsOf s :=
  ⟨rfl, by simp [Scope.isRowContext, Scope.aggregated], by simp [Scope.isRowContext, hs]⟩

lemma operation_startGrouping (hs : s.isGrouped = false) (hin : s.inAggregate = false)
    (hc : c.operator = .aggregate a) {o : Operand} (ho : o.isStar = false) (keys : List String) :
    operation (s.startGrouping keys) c [o] = (o.value s).map (reduced keys c a) := by
  have hvalue : o.valueFrom (s.startGrouping keys).aggregated
      (own (s.startGrouping keys).aggregated o) = o.value s :=
    value_congr (seesRowsOf_aggregated hs keys) o
  have hgrouped : (!(s.startGrouping keys).isGrouped || (s.startGrouping keys).inAggregate) =
      false := by
    simpa [Scope.startGrouping, Scope.isGrouped] using hin
  have hrows : (s.startGrouping keys).groupRowSteps =
      if keys.isEmpty then [.unfold] else [.selectSide .values, .unfold] := rfl
  rw [operation]
  simp only [hc, hgrouped, Bool.false_eq_true, if_false, aggregate, hvalue, hrows]
  cases o with
  | column i =>
    have hstar : i.isStar = false := ho
    simp only [hstar, Bool.false_eq_true, if_false]
    rfl
  | _ => rfl

/-- An aggregate whose text is no key has the steps of its operator as a value. -/
lemma value_startGrouping (hc : c.operator = .aggregate a) {keys : List String} {text : String}
    (htext : text ∉ keys) (label : String) (os : List Operand) :
    (apply c text label os).value (s.startGrouping keys) =
      operation (s.startGrouping keys) c os := by
  have hkey : (s.startGrouping keys).isGroupKey text = false := by
    simp [Scope.isGroupKey, Scope.startGrouping, Scope.groupKeys, htext]
  simp [value, valueFrom, own, hkey, hc, Operator.isPredicate, Operator.family]

end Operand

/-- **Arguments of aggregates are planned for rows.** After rows are grouped, whatever the keys are,
an aggregate of an expression other than a star has steps if the expression has some as a value
before, and fails in the same way if it has none. The steps go to the rows of the group, become
what the expression becomes before, drop what was there already if the call is distinct, and
reduce. If the text of the aggregate is no key itself, the value of the aggregate has these
steps. -/
theorem Workbench.aggregate_argument_of_row {w : Workbench} {f : Call} {a : Aggregate} {n : Node}
    (hw : w.scope.isGrouped = false) (hin : w.scope.inAggregate = false)
    (hf : f.operator = .aggregate a) (hn : n.isStar = false) (keys : List String) :
    let steps := (Operand.ofNode n >>= fun o => o.value w.scope).map (Operand.reduced keys f a)
    (w.startGrouping keys).addOperator (.call f [n]) = (w.startGrouping keys).extend steps ∧
      ((∀ text ∈ keys, (Node.call f [n]).sql? ≠ some text) →
        (w.startGrouping keys).addValue (.call f [n]) = (w.startGrouping keys).extend steps) := by
  have hoperands : Operand.ofCall f [n] = (Operand.ofNode n).map fun o => [o] := by
    have hfamily : f.operator.family ≠ .unsupported := by
      rw [hf]
      nofun
    rw [Operand.ofCall, if_neg hfamily, Operand.ofNodes, Operand.ofNodes]
    cases Operand.ofNode n <;> rfl
  cases ho : Operand.ofNode n with
  | error e =>
    have hcall : Operand.ofNode (.call f [n]) = .error e := by
      rw [Operand.ofNode_call, hoperands, ho]
      rfl
    refine ⟨?_, fun _ => ?_⟩
    · rw [addOperator, hoperands, ho]
      rfl
    · rw [addValue, hcall]
      rfl
  | ok o =>
    have hoperation := Operand.operation_startGrouping hw hin hf
      ((Operand.isStar_ofNode ho).trans hn) keys
    refine ⟨?_, fun hkeys => ?_⟩
    · rw [addOperator, hoperands, ho]
      exact congrArg (w.startGrouping keys).extend hoperation
    · obtain ⟨text, htext⟩ : ∃ text, (Node.call f [n]).sql? = some text := by
        obtain ⟨t, ht⟩ := Operand.exists_text ho
        simp [Node.sql?_call, Node.callText?, hf, Operator.form, ht]
      have hcall : Operand.ofNode (.call f [n]) = .ok (.apply f text text [o]) := by
        rw [Operand.ofNode_call, hoperands, ho, Operand.textOf, htext]
        rfl
      rw [addValue, hcall]
      refine congrArg (w.startGrouping keys).extend (.trans ?_ hoperation)
      exact Operand.value_startGrouping hf (fun h => hkeys text h htext) text [o]

namespace People

def onePerson : Workbench := ⟨⟨catalog, [⟨"p", table⟩], none, false⟩, ⟨none, []⟩, []⟩

/-- `p.age + 1` -/
def nextAge : Node := .apply (.arithmetic .plus) [column "p" "age", number 1]

/-- Rows can be grouped by what is summed up, and by a part of it. It is read of the rows. -/
theorem sums_group_key :
    nextAge.sql? = some "p.age + 1" ∧
    ∃ w, (onePerson.startGrouping ["p.age", "p.age + 1"]).addValue
        (.call ⟨.aggregate .sum, true, none⟩ [nextAge]) = .ok w ∧
      w.traversal.steps = ([.selectSide .values, .unfold, .project ["lhs", "rhs"],
        .by_ [.values "age"], .by_ [.constant (.int 1)], .math "lhs + rhs", .dedup,
        .reduce .sum] : Steps) := by
  have hsum := (Workbench.aggregate_argument_of_row (w := onePerson)
    (f := ⟨.aggregate .sum, true, none⟩) (n := nextAge) rfl rfl rfl rfl
    ["p.age", "p.age + 1"]).2 (by decide)
  exact ⟨rfl, _, hsum, rfl⟩

end People

end GraphSelect
