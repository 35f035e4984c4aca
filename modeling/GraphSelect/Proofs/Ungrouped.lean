import GraphSelect.Proofs.Refusals

/-!
Failures for want of a column in a grouping.

A group has no columns but its keys, so a column may have to be read where it cannot be. It is
always one of the expression that is planned, and stands in no aggregate, for there rows are read.
-/

namespace GraphSelect

namespace Operand

mutual
/-- The columns of an operand that stand in no aggregate. -/
def columns : Operand → List Identifier
  | .column i => [i]
  | .apply c _ _ os => if c.operator.isAggregate then [] else columnsEach os
  | _ => []

def columnsEach : List Operand → List Identifier
  | [] => []
  | o :: os => columns o ++ columnsEach os
end

lemma columnsEach_eq_flatMap (os : List Operand) : columnsEach os = os.flatMap columns := by
  induction os with
  | nil => rfl
  | cons o os ih => simp [columnsEach, ih]

end Operand

/-- If the work fails for want of a column in the grouping, then over one of some columns. -/
def Outcome.Blames {α : Type} (P : Identifier → Prop) (x : Outcome α) : Prop :=
  ∀ f, x = .error (.fault f) → f.kind = .columnNotGrouped →
    ∃ i, P i ∧ f.arguments = [.text i.text]

namespace Operand

/-- A column that an operand may fail over: it stands in no aggregate, and there are no rows. -/
def Lacks (s : Scope) (o : Operand) (i : Identifier) : Prop :=
  s.isRowContext = false ∧ i ∈ o.columns

variable {s : Scope} {o : Operand}

lemma Lacks.of_operand {c : Call} {text label : String} {os : List Operand}
    (hc : c.operator.isAggregate = false) (ho : o ∈ os) (i : Identifier) (h : Lacks s o i) :
    Lacks s (.apply c text label os) i := by
  refine ⟨h.1, ?_⟩
  rw [columns, hc, columnsEach_eq_flatMap]
  exact List.mem_flatMap.2 ⟨o, ho, h.2⟩

/-- An operand fails for want of a column in the grouping over one of its columns only. Inside an
aggregate all columns can be read. -/
lemma Raises.exists_lacks {e : Failure} (h : Raises s o e) {f : Fault} (hf : e = .fault f)
    (hkind : f.kind = .columnNotGrouped) : ∃ i, Lacks s o i ∧ f.arguments = [.text i.text] := by
  induction h with
  | unknown h =>
    subst hf
    have := stepless_owner _ _ _ h
    simp [Failure.isOfSteps, hkind] at this
  | @ungrouped s i hs =>
    cases hf
    exact ⟨i, ⟨hs, List.mem_singleton_self i⟩, rfl⟩
  | operand _ ha hx _ ih =>
    obtain ⟨i, hi, hargs⟩ := ih hf
    exact ⟨i, hi.of_operand ha hx, hargs⟩
  | argument _ _ _ _ _ ih =>
    obtain ⟨i, ⟨hs, -⟩, -⟩ := ih hf
    simp [Scope.isRowContext, Scope.aggregated] at hs
  | _ =>
    cases hf
    cases hkind

lemma blames_value (o : Operand) : (o.value s).Blames (Lacks s o) :=
  fun _ hf => (raises_value s o _ hf).exists_lacks rfl

lemma blames_filter (o : Operand) : (o.filter s).Blames (Lacks s o) :=
  fun _ hf => (raises_filter s o _ hf).exists_lacks rfl

end Operand

end GraphSelect
