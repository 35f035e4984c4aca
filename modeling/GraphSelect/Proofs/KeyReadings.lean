import GraphSelect.Proofs.Grouping
import GraphSelect.Proofs.Ungrouped

/-!
Expressions that rows are grouped by.

At a group such an expression is read as a key wherever its value is asked for, and then nothing in
it is looked at. So cutting off its operands changes nothing, and a column that cannot be read at a
group is one that is left when they are cut off. Only a condition that is used as a condition is
tested anew at the group, with no regard to the key that it is.
-/

namespace GraphSelect

/-- The use that an operator makes of its operands. -/
def Operator.use : Operator → Operand.Use
  | .and | .or | .not => .filter
  | _ => .value

namespace Operand

/-- Whether an operator that a key is made of is read as that key in a use. -/
def Use.readsKey : Use → Operator → Bool
  | .filter, op => !op.isPredicate
  | _, _ => true

mutual
/-- An operand without the operands of the keys that are read in it. -/
def cut (s : Scope) (use : Use) : Operand → Operand
  | .apply c text label os =>
    if use.readsKey c.operator && s.isGroupKey text then .apply c text label []
    else if c.operator.isAggregate then .apply c text label os
    else .apply c text label (cutEach s c.operator.use os)
  | o => o

def cutEach (s : Scope) (use : Use) : List Operand → List Operand
  | [] => []
  | o :: os => cut s use o :: cutEach s use os
end

lemma cutEach_eq_map (s : Scope) (use : Use) (os : List Operand) :
    cutEach s use os = os.map (cut s use) := by
  induction os with
  | nil => rfl
  | cons o os ih => simp [cutEach, ih]

/-! ### Keys are not looked into -/

section

variable {s : Scope} {c : Call} {text label : String} {os : List Operand} {o : Operand}

/-- At a group the value of a call that is a key is read as that key. -/
lemma value_of_key (h : s.isGroupKey text = true) :
    (apply c text label os).value s = .ok (Scope.groupKeySteps text) := by
  simp [Operand.value, valueFrom, h]

/-- If it is no condition, it is also used as a filter by that key. -/
lemma filter_of_key (h : s.isGroupKey text = true) (hc : c.operator.isPredicate = false) :
    (apply c text label os).filter s = .ok (holds (Scope.groupKeySteps text)) := by
  simp [Operand.filter, filterFrom, valueFrom, h, hc]

lemma compareConstant_apply (p : Comparison) (v : Outcome Steps) (l : Literal) :
    compareConstant s p v (.apply c text label os) l = ((apply c text label os).valueFrom s v).map
      fun v => [.whereEmits (v ++ [.satisfies p l.native])] := by
  unfold compareConstant
  split
  · next hnull => rw [hnull]
  · simp_all
  · rfl

/-- Two operands that can take each other's place as values: calls of one operator that become the
same steps, or one and the same operand. -/
inductive SameValue (s : Scope) : Operand → Operand → Prop
  | refl (o : Operand) : SameValue s o o
  | call {c : Call} {text label : String} {os os' : List Operand}
      (h : (apply c text label os).value s = (apply c text label os').value s) :
      SameValue s (.apply c text label os) (.apply c text label os')

namespace SameValue

variable {o₁ o₂ p₁ p₂ : Operand}

lemma value (h : SameValue s o₁ o₂) : o₁.value s = o₂.value s := by
  cases h with
  | refl => rfl
  | call h => exact h

lemma presence (h : SameValue s o₁ o₂) : o₁.presence s = o₂.presence s := by
  cases h with
  | refl => rfl
  | call h => exact congrArg (Except.map _) h

lemma absence (h : SameValue s o₁ o₂) :
    o₁.absenceFrom s (own s o₁) = o₂.absenceFrom s (own s o₂) := by
  cases h with
  | refl => rfl
  | call h => exact congrArg (Except.map _) h

lemma isConstant (h : SameValue s o₁ o₂) : o₁.isConstant = o₂.isConstant := by
  cases h <;> rfl

lemma type (h : SameValue s o₁ o₂) : o₁.type s = o₂.type s := by
  cases h <;> rfl

lemma compareConstant (h : SameValue s o₁ o₂) (p : Comparison) (l : Literal) :
    compareConstant s p (own s o₁) o₁ l = compareConstant s p (own s o₂) o₂ l := by
  cases h with
  | refl => rfl
  | call h =>
    rw [compareConstant_apply, compareConstant_apply]
    exact congrArg (Except.map _) h

lemma compare (h : SameValue s o₁ o₂) (h' : SameValue s p₁ p₂) (p : Comparison) :
    compare s p o₁ p₁ (own s o₁) (own s p₁) = compare s p o₂ p₂ (own s o₂) (own s p₂) := by
  have hpair : (do
        let l ← o₁.value s
        let r ← p₁.value s
        return [Step.whereEmits (pair l r ++ [.whereEntries "lhs" p "rhs"])]) = (do
        let l ← o₂.value s
        let r ← p₂.value s
        return [Step.whereEmits (pair l r ++ [.whereEntries "lhs" p "rhs"])] : Outcome Steps) := by
    rw [h.value, h'.value]
  cases h' with
  | refl =>
    cases p₁ with
    | constant l => exact h.compareConstant p l
    | _ =>
      cases h with
      | refl => rfl
      | call => exact hpair
  | call hright =>
    cases h with
    | refl =>
      cases o₁ with
      | constant l => exact (SameValue.call hright).compareConstant p.flip l
      | _ => exact hpair
    | call => exact hpair

lemma cast (h : SameValue s o₁ o₂) (h' : SameValue s p₁ p₂) :
    cast s o₁ p₁ (own s o₁) = cast s o₂ p₂ (own s o₂) := by
  have hvalue : o₁.valueFrom s (own s o₁) = o₂.valueFrom s (own s o₂) := h.value
  cases h' with
  | refl => simp only [Operand.cast, h.type, hvalue]
  | call => rfl

end SameValue

lemma presences_congr {os os' : List Operand} (h : List.Forall₂ (SameValue s) os os') :
    presences s os = presences s os' := by
  induction h with
  | nil => rfl
  | cons h _ ih =>
    have hpresence := h.presence
    simp only [Operand.presence] at hpresence
    simp only [presences, ih, h.isConstant, hpresence]

/-- An operand becomes the same steps without the operands of the keys that are read in it. -/
structure IgnoresKeys (s : Scope) (o : Operand) : Prop where
  value : SameValue s (o.cut s .value) o
  filter : (o.cut s .filter).filter s = o.filter s
  guard : guard s (o.cut s .filter) = guard s o

/-- An operator that reads its operands where it stands makes the same steps of them when they are
cut. -/
lemma operation_cutEach (hc : c.operator.isAggregate = false) (h : ∀ o ∈ os, IgnoresKeys s o) :
    operation s c (cutEach s c.operator.use os) = operation s c os := by
  obtain _ | ⟨x, _ | ⟨y, _ | _⟩⟩ := os
  · rfl
  · have hx := h x (by simp)
    have hfilter := hx.filter
    have hvalue := hx.value.value
    have hpresence := hx.value.presence
    simp only [Operand.filter, Operand.value, Operand.presence] at hfilter hvalue hpresence
    cases hop : c.operator <;>
      simp_all [cutEach, Operator.use, operation, hx.value.absence, hx.guard, Operator.isAggregate]
  · have hx := h x (by simp)
    have hy := h y (by simp)
    have hfilter := hx.filter
    have hvalue := hx.value.value
    have hfilter' := hy.filter
    have hvalue' := hy.value.value
    simp only [Operand.filter, Operand.value] at hfilter hvalue hfilter' hvalue'
    cases hop : c.operator <;>
      simp_all [cutEach, Operator.use, operation, hx.value.compare hy.value, hx.value.cast hy.value]
  · rfl

/-- The operands of a key do not matter to what it becomes. -/
theorem ignoresKeys (s : Scope) : ∀ o : Operand, IgnoresKeys s o
  | .apply c text label os => by
    have hown (hc : c.operator.isAggregate = false) :
        own s (.apply c text label (cutEach s c.operator.use os)) =
          own s (.apply c text label os) :=
      operation_cutEach hc fun o _ => ignoresKeys s o
    have hguard : guard s (.apply c text label (cutEach s c.operator.use os)) =
        guard s (.apply c text label os) := by
      simp only [guard]
      split
      · next p hop =>
        refine presences_congr ?_
        rw [cutEach_eq_map, List.forall₂_map_left_iff, hop]
        exact List.forall₂_same.2 fun o _ => (ignoresKeys s o).value
      · rfl
    refine ⟨?_, ?_, ?_⟩ <;> rw [cut]
    · split
      · next hkey =>
        have hkey := (Bool.and_eq_true_iff.1 hkey).2
        exact .call (by rw [value_of_key hkey, value_of_key hkey])
      · split
        · exact .refl _
        · next hc => exact .call (by simp only [Operand.value, valueFrom, hown (by simpa using hc)])
    · split
      · next hkey =>
        simp only [Use.readsKey, Bool.and_eq_true, Bool.not_eq_eq_eq_not, Bool.not_true] at hkey
        rw [filter_of_key hkey.2 hkey.1, filter_of_key hkey.2 hkey.1]
      · split
        · rfl
        · next hc => simp only [Operand.filter, filterFrom, valueFrom, hown (by simpa using hc)]
    · split
      · next hkey =>
        cases hop : c.operator <;>
          simp_all [guard, Use.readsKey, Operator.isPredicate, Operator.family]
      · split
        · rfl
        · next hc => exact hguard
  | .column _ | .constant _ | .target _ | .raw _ => ⟨.refl _, rfl, rfl⟩

end

/-! ### Columns outside keys -/

section

variable {s : Scope}

/-- What is left to be read when the operands of the keys in it are cut off. -/
def Exposes (s : Scope) (use : Use) (o : Operand) (i : Identifier) : Prop :=
  s.isRowContext = false ∧ i ∈ (o.cut s use).columns

lemma blames_value_exposed (o : Operand) : (o.value s).Blames (Exposes s .value o) := by
  rw [← (ignoresKeys s o).value.value]
  exact blames_value _

lemma blames_filter_exposed (o : Operand) : (o.filter s).Blames (Exposes s .filter o) := by
  rw [← (ignoresKeys s o).filter]
  exact blames_filter _

end

end Operand

open Outcome

section

variable {s : Scope}

/-! ### Queries -/

/-- What is known of the groups that the rows of a query are put into. -/
def Select.GroupsTo (q : Select) (c : Catalog) (s : Scope) : Prop :=
  ∃ n row v w, q.source = some n ∧ sourceSteps (.initial c) n = .ok (row, v) ∧
    grouped row q.groupBy = .ok (s, w)

/-- A column of the results of a query that is not read as a part of a key. -/
def Select.Exposes (q : Select) (s : Scope) (i : Identifier) : Prop :=
  ∃ n use o, q.Uses n use ∧ Operand.ofNode n = .ok o ∧ i ∈ (o.cut s use).columns

variable {c : Catalog} {q : Select}

/-- A query fails for want of a column in its grouping over a column only that its results
expose. -/
lemma Select.FailsOver.exists_exposed {e : Failure} (h : q.FailsOver c e) {f : Fault}
    (hf : e = .fault f) (hkind : f.kind = .columnNotGrouped) :
    ∃ i, (∃ s, q.GroupsTo c s ∧ q.Exposes s i) ∧ f.arguments = [.text i.text] := by
  -- Where there are no rows any more, they have been grouped.
  have hresults {s : Scope} (hs : q.HasResults c s) (hrow : s.isRowContext = false) :
      q.GroupsTo c s := by
    obtain ⟨row, w, ⟨n, v, hn, hsource⟩, hs⟩ := hs
    refine ⟨n, row, v, w, hn, hsource, ?_⟩
    unfold groupSteps at hs
    split at hs
    · exact inClause_eq_ok.1 hs
    · cases hs
      simp [isRowContext_sourceSteps hsource] at hrow
  induction h generalizing f with
  | filter _ hrow _ h =>
    obtain ⟨i, ⟨hs, -⟩, -⟩ := Operand.blames_filter _ f (hf ▸ h) hkind
    obtain ⟨n, v, -, hsource⟩ := hrow
    simp [isRowContext_sourceSteps hsource] at hs
  | key _ hrow _ h =>
    obtain ⟨i, ⟨hs, -⟩, -⟩ := Operand.blames_value _ f (hf ▸ h) hkind
    obtain ⟨n, v, -, hsource⟩ := hrow
    simp [isRowContext_sourceSteps hsource] at hs
  | value hn hs ho h =>
    obtain ⟨i, ⟨hrow, hi⟩, hargs⟩ := Operand.blames_value_exposed _ f (hf ▸ h) hkind
    exact ⟨i, ⟨_, hresults hs hrow, _, _, _, hn, ho, hi⟩, hargs⟩
  | having hn hs ho h =>
    obtain ⟨i, ⟨hrow, hi⟩, hargs⟩ := Operand.blames_filter_exposed _ f (hf ▸ h) hkind
    exact ⟨i, ⟨_, hresults hs hrow, _, _, _, .having hn, ho, hi⟩, hargs⟩
  | none h =>
    subst hf
    simp [Failure.isOfSteps, hkind] at h
  | @within e clause _ ih =>
    cases e with
    | fault g =>
      cases hf
      exact ih (f := g) rfl hkind
    | missingOperand => cases hf

lemma blames_plan (c : Catalog) (source : Option String) (maxRows : Option Int) (q : Select) :
    (plan c source maxRows q).Blames fun i => ∃ s, q.GroupsTo c s ∧ q.Exposes s i :=
  fun _ hf => (failsOver_plan c source maxRows q _ hf).exists_exposed rfl

end

/-- **Grouped expressions are read as keys.** The value of a call that rows are grouped by is read
as the key that it makes, and so is its truth unless it is a condition. In no expression does it
matter what stands in such a call, and a query fails for want of a column in its grouping over a
column only that stands in none, nor in an aggregate. -/
theorem grouped_calls_are_keys {c : Catalog} {q : Select} {s : Scope} (hs : q.GroupsTo c s) :
    (∀ f ns, .call f ns ∈ q.groupBy → ∃ text os,
      Operand.ofNode (.call f ns) = .ok (.apply f text text os) ∧
      (Operand.apply f text text os).value s = .ok (Scope.groupKeySteps text) ∧
      (f.operator.isPredicate = false →
        (Operand.apply f text text os).filter s = .ok (holds (Scope.groupKeySteps text)))) ∧
    (∀ o : Operand, (o.cut s .value).value s = o.value s ∧
      (o.cut s .filter).filter s = o.filter s) ∧
    ∀ source maxRows f, plan c source maxRows q = .error (.fault f) →
      f.kind = .columnNotGrouped → ∃ i, q.Exposes s i ∧ f.arguments = [.text i.text] := by
  obtain ⟨n, row, v, w, hn, hsource, hgrouped⟩ := hs
  refine ⟨fun f ns hf => ?_, fun o => ?_, fun source maxRows f hf hkind => ?_⟩
  · obtain ⟨keys, hkeys, hs⟩ := Outcome.bind_eq_ok.1 hgrouped
    cases hs
    obtain ⟨o, name, ho, hname, hmem⟩ := (exists_keyName hkeys).2 _ hf
    obtain ⟨os, -, ho'⟩ := Outcome.bind_eq_ok.1 (Operand.ofNode_call f ns ▸ ho)
    obtain ⟨text, htext, ho'⟩ := Outcome.bind_eq_ok.1 ho'
    cases ho'
    obtain rfl : text = name := Except.ok.inj (htext.symm.trans hname)
    have hkey : (row.startGrouping (keys.map (·.1))).isGroupKey text = true := by
      simpa [Scope.isGroupKey, Scope.startGrouping, Scope.isGrouped, Scope.groupKeys,
        (grouping_sourceSteps hsource).2, Scope.initial] using hmem
    exact ⟨text, os, ho, Operand.value_of_key hkey, Operand.filter_of_key hkey⟩
  · exact ⟨(Operand.ignoresKeys s o).value.value, (Operand.ignoresKeys s o).filter⟩
  · obtain ⟨i, ⟨s', ⟨n', row', v', w', hn', hsource', hgrouped'⟩, hi⟩, hargs⟩ :=
      blames_plan c source maxRows q f hf hkind
    rw [hn] at hn'
    cases hn'
    rw [hsource] at hsource'
    cases hsource'
    rw [hgrouped] at hgrouped'
    cases hgrouped'
    exact ⟨i, hi, hargs⟩

namespace People

/-- `age > 18`, as it is written. -/
def ofAge : Node := .apply (.comparison .greater) [.identifier ⟨["age"], none⟩, number 18]

/-- `SELECT COUNT(*) FROM person GROUP BY age > 18 HAVING age > 18` -/
def countOfAge : Select :=
  { Select.empty with
    items := [.apply (.aggregate .count) [.identifier ⟨["*"], none⟩]]
    source := some (.table ⟨"person", none⟩)
    groupBy := [ofAge]
    having := some ofAge }

/-- The value of the condition is read as a key. As a condition it is tested again, and the age that
it asks for cannot be read. -/
theorem reads_key_of_age : ∃ q s f ns o, countOfAge.resolve catalog = .ok q ∧
    q.GroupsTo catalog s ∧ .call f ns ∈ q.groupBy ∧ Operand.ofNode (.call f ns) = .ok o ∧
    o.value s = .ok (Scope.groupKeySteps "person.age > 18") ∧
    ∃ i, q.Exposes s i ∧ i.text = "person.age" := by
  obtain ⟨q, s, hq, hs, ⟨f, ns, hf, htext⟩, e, he, hkind, hargs⟩ : ∃ q s,
      countOfAge.resolve catalog = .ok q ∧ q.GroupsTo catalog s ∧
      (∃ f ns, .call f ns ∈ q.groupBy ∧ (Node.call f ns).sql? = some "person.age > 18") ∧
      ∃ e, plan catalog none none q = .error (.fault e) ∧ e.kind = .columnNotGrouped ∧
        e.arguments = [.text "person.age"] :=
    ⟨_, _, rfl, ⟨_, _, _, _, rfl, rfl, rfl⟩, ⟨_, _, List.mem_singleton_self _, rfl⟩, _, rfl, rfl,
      rfl⟩
  obtain ⟨hkeys, -, hplan⟩ := grouped_calls_are_keys hs
  obtain ⟨text, os, ho, hvalue, -⟩ := hkeys f ns hf
  obtain ⟨i, hi, hi'⟩ := hplan none none e he hkind
  obtain ⟨-, -, -, htext'⟩ := Operand.ofNode_eq_apply ho
  obtain rfl := Option.some.inj ((Operand.textOf_eq_ok.1 htext').symm.trans htext)
  refine ⟨q, s, f, ns, _, hq, hs, hf, ho, hvalue, i, hi, ?_⟩
  simpa [hargs] using hi'.symm

/-- Not every expression that rows are grouped by can be used as a condition on the groups. -/
theorem having_of_age_fails : ∃ q g e, countOfAge.resolve catalog = .ok q ∧
    q.groupBy = [g] ∧ q.having = some g ∧ plan catalog none none q = .error (.fault e) ∧
      e.kind = .columnNotGrouped ∧ e.arguments = [.text "person.age"] :=
  ⟨_, _, _, rfl, rfl, rfl, rfl, rfl, rfl⟩

end People

end GraphSelect
