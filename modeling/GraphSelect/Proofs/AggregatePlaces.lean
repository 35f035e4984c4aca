import GraphSelect.Proofs.Grouping
import GraphSelect.Proofs.Refusals

/-!
Where aggregates can stand.

Whether rows are grouped is decided by a walk over the expressions of a query, before any of them
has steps. Whether an aggregate has steps is decided when it is planned, by what is known of the
place. The walk sees every aggregate that is planned for the results of a query, so that none of
these is planned for a row; an aggregate that is refused is one that rows are filtered or grouped
by, or stands in the argument of another.
-/

namespace GraphSelect

open Outcome

/-! ### Aggregates that are planned -/

namespace Operand

mutual
/-- Whether an aggregate is applied in an operand. -/
def hasAggregate : Operand → Bool
  | .apply c _ _ os => c.operator.isAggregate || anyAggregate os
  | _ => false

def anyAggregate : List Operand → Bool
  | [] => false
  | o :: os => hasAggregate o || anyAggregate os
end

lemma anyAggregate_eq_any (os : List Operand) : anyAggregate os = os.any hasAggregate := by
  induction os with
  | nil => rfl
  | cons o os ih => simp [anyAggregate, ih]

lemma hasAggregate_rename (label : String) (o : Operand) :
    (o.rename label).hasAggregate = o.hasAggregate := by
  cases o <;> rfl

/-- An aggregate that is applied in an operand is seen in the expression. -/
lemma containsAggregate_of_hasAggregate : ∀ {o : Operand} {n : Node}, ofNode n = .ok o →
    o.hasAggregate = true → n.containsAggregate = true
  | .apply c text label os, n, ho, h => by
    by_cases hc : c.operator.family = .unsupported
    · -- The operands stay as they are, and there is nothing to be applied in them.
      obtain ⟨ns, rfl, hos, -⟩ := ofNode_eq_apply ho
      rw [ofCall, if_pos hc] at hos
      cases hos
      have hagg : c.operator.isAggregate = false := by
        cases hop : c.operator <;> simp_all [Operator.family, Operator.isAggregate]
      simp [hasAggregate, hagg, anyAggregate_eq_any] at h
    · obtain ⟨ns, rfl, -, hns⟩ := exists_nodes hc ho
      rw [containsAggregate_call (Operator.ne_scalarQuery hc)]
      rw [hasAggregate, anyAggregate_eq_any] at h
      refine Bool.or_eq_true_iff.2 ((Bool.or_eq_true_iff.1 h).imp_right fun h => ?_)
      obtain ⟨x, hx, hagg⟩ := List.any_eq_true.1 h
      obtain ⟨m, hm, hmx⟩ := exists_left_of_forall₂ hns x hx
      exact List.any_eq_true.2 ⟨m, hm, containsAggregate_of_hasAggregate hmx hagg⟩
  | .column _, _, _, h | .constant _, _, _, h | .target _, _, _, h | .raw _, _, _, h => by
    simp [hasAggregate] at h

end Operand

/-- The parts of an expression are parts of the item that gives a name to it. -/
lemma any_parts_expression (p : Node → Bool) {n : Node} (h : n.expression.parts.any p = true) :
    n.parts.any p = true := by
  unfold Node.expression at h
  split at h
  · split at h
    · next hc =>
      rw [any_parts_call p (by simp [hc])]
      simp [h]
    · exact h
  · exact h

namespace Select

variable {q : Select}

/-- The operands that the results of a query are made of: its items, the condition on its groups,
and what they are ordered by, which may be an item by its name or by its place. -/
inductive Plans (q : Select) (row : Scope) : Operand → Prop
  | item {items : List Item} {x : Item} (h : itemsFrom row [] q.items = .ok items) (hx : x ∈ items) :
      q.Plans row x.operand
  | having {n : Node} {o : Operand} (hn : n ∈ q.having) (ho : Operand.ofNode n = .ok o) :
      q.Plans row o
  | sorting {items : List Item} {k : SortKey Node} {o : Operand}
      (h : itemsFrom row [] q.items = .ok items) (hk : k ∈ q.orderBy)
      (ho : sortOperand items k.expression = .ok o) : q.Plans row o

/-- Rows are grouped if the results of a query have an aggregate. -/
lemma needsGrouping_of_uses {n : Node} {use : Operand.Use} (hn : q.Uses n use)
    (h : n.containsAggregate = true) : q.needsGrouping = true := by
  cases hn with
  | @item n hn =>
    have : q.items.any Node.containsAggregate = true :=
      List.any_eq_true.2 ⟨n, hn, any_parts_expression _ h⟩
    simp [needsGrouping, this]
  | having hn => simp [needsGrouping, Option.mem_def.1 hn]
  | @sorting k hk =>
    have : (q.orderBy.any fun k => k.expression.containsAggregate) = true :=
      List.any_eq_true.2 ⟨k, hk, h⟩
    simp [needsGrouping, this]

lemma needsGrouping_of_plans {row : Scope} {o : Operand} (ho : q.Plans row o)
    (h : o.hasAggregate = true) : q.needsGrouping = true := by
  have hitem {items : List Item} {x : Item} (hitems : itemsFrom row [] q.items = .ok items)
      (hx : x ∈ items) (h : x.operand.hasAggregate = true) : q.needsGrouping = true := by
    obtain ⟨n, hn, used, hitem⟩ := exists_left_of_forall₂ (forall₂_itemsFrom hitems) x hx
    obtain ⟨e, o, he, ho, hoperand⟩ := item_cases hitem
    obtain rfl := expression_of_unnamed he
    rw [hoperand, Operand.hasAggregate_rename] at h
    exact needsGrouping_of_uses (.item hn) (Operand.containsAggregate_of_hasAggregate ho h)
  cases ho with
  | item hitems hx => exact hitem hitems hx h
  | having hn ho =>
    exact needsGrouping_of_uses (.having hn) (Operand.containsAggregate_of_hasAggregate ho h)
  | sorting hitems hk ho =>
    obtain ⟨x, hx, rfl⟩ | ho := sortOperand_cases ho
    · exact hitem hitems hx h
    · exact needsGrouping_of_uses (.sorting hk) (Operand.containsAggregate_of_hasAggregate ho h)

end Select

/-! ### Aggregates that are refused -/

namespace Node

/-- The operands of an operator with steps are expressions, or the type of a cast. -/
lemma IsWritten.operand {c : Call} {ns : List Node} (h : (Node.call c ns).IsWritten .expression)
    (hc : c.operator.family ≠ .unsupported) {n : Node} (hn : n ∈ ns) :
    n.IsWritten .expression ∨ ∃ t, n = .typeSpec t := by
  cases h with
  | infixed _ hx hy =>
    obtain rfl | rfl : n = _ ∨ n = _ := by simpa using hn
    · exact .inl hx
    · exact .inl hy
  | prefixed _ hx | test _ hx =>
    obtain rfl := List.mem_singleton.1 hn
    exact .inl hx
  | function _ _ hxs => exact .inl (hxs n hn)
  | cast _ hx t =>
    obtain rfl | rfl : n = _ ∨ n = _ := by simpa using hn
    · exact .inl hx
    · exact .inr ⟨t, rfl⟩
  | within hop | scalarQuery hop => exact absurd (by rw [hop]; rfl) hc

/-- An operator without steps that a text denotes has the name of no aggregate. -/
lemma IsWritten.name_ne {c : Call} {ns : List Node} (h : (Node.call c ns).IsWritten .expression)
    (hc : c.operator.family = .unsupported ∨ c.operator = .cast) (a : Aggregate) :
    c.operator.name ≠ a.name := by
  have hfunction (name : String) (hop : c.operator = .ofFunctionName name) :
      c.operator.name ≠ a.name := by
    unfold Operator.ofFunctionName at hop
    dsimp only at hop
    split at hop
    · simp [hop, Operator.family] at hc
    · next hnone =>
      rw [hop]
      have := List.find?_eq_none.1 hnone a (by cases a <;> simp [Aggregate.all])
      simpa [Operator.name, eq_comm] using this
  cases h with
  | function name hop => exact hfunction name hop
  | _ => cases hop : c.operator <;> cases a <;>
      simp_all [Operator.family, Operator.isInfix, Operator.isPrefix, Operator.isTest,
        Operator.name, Aggregate.name]

end Node

/-- A failure over an operator with the name of an aggregate. -/
def Failure.IsOverAggregate (e : Failure) : Prop :=
  ∃ (f : Fault) (a : Aggregate), e = .fault f ∧ f.kind = .unknownOperator ∧
    f.arguments = [.text a.name]

lemma Failure.IsOverAggregate.isOfSteps {e : Failure} (he : e.IsOverAggregate) :
    e.isOfSteps = true := by
  obtain ⟨f, a, rfl, hkind, -⟩ := he
  simp [Failure.isOfSteps, hkind]

lemma Failure.IsOverAggregate.of_within {e : Failure} {clause : String}
    (he : (e.within clause).IsOverAggregate) : e.IsOverAggregate := by
  obtain ⟨f, a, hf, hkind, hargs⟩ := he
  cases e with
  | fault g =>
    cases hf
    exact ⟨g, a, rfl, hkind, hargs⟩
  | missingOperand => cases hf

lemma containsAggregate_of_nestsAggregates {n : Node} (h : n.nestsAggregates = true) :
    n.containsAggregate = true := by
  by_contra hnone
  simp [nestsAggregates_of_containsAggregate (by simpa using hnone)] at h

/-- An operand fails over an aggregate only if that stands in the argument of another, or if there is
no group. -/
lemma Operand.Raises.places {s : Scope} {o : Operand} {e : Failure} (h : Raises s o e)
    (he : e.IsOverAggregate) {n : Node} (ho : ofNode n = .ok o)
    (hn : n.IsWritten .expression ∨ ∃ t, n = .typeSpec t) :
    n.nestsAggregates = true ∨ (s.isRowContext = true ∧ n.containsAggregate = true) := by
  induction h generalizing n with
  | unknown h =>
    have := stepless_owner _ _ _ h
    simp [he.isOfSteps] at this
  | @operator s c _ _ _ hc =>
    obtain ⟨ns, rfl, -⟩ := ofNode_eq_apply ho
    obtain ⟨f, a, hf, -, hargs⟩ := he
    cases hf
    obtain hn | ⟨t, hn⟩ := hn
    · exact absurd (by simpa [Fault.unknownOperator, Fault.ofTexts] using hargs) (hn.name_ne hc a)
    · cases hn
  | @aggregate s c _ _ _ hc hs =>
    obtain ⟨ns, rfl, -⟩ := ofNode_eq_apply ho
    rw [containsAggregate_call (Operator.ne_scalarQuery (Operator.family_of_isAggregate hc)), hc]
    exact .inr ⟨hs, rfl⟩
  | @operand s c _ _ _ x _ hc _ hx _ ih =>
    obtain ⟨ns, rfl, -, hns⟩ := exists_nodes hc ho
    obtain ⟨m, hm, hmx⟩ := exists_left_of_forall₂ hns x hx
    obtain hn | ⟨t, hn⟩ := hn
    · rw [nestsAggregates_call (Operator.ne_scalarQuery hc),
        containsAggregate_call (Operator.ne_scalarQuery hc)]
      obtain hnests | ⟨hs, hcontains⟩ := ih he hmx (hn.operand hc hm)
      · have := List.any_eq_true.2 ⟨m, hm, hnests⟩
        exact .inl (by simp [this])
      · have := List.any_eq_true.2 ⟨m, hm, hcontains⟩
        exact .inr ⟨hs, by simp [this]⟩
    · cases hn
  | @argument s c _ _ _ x _ hc _ hx _ _ ih =>
    have hfamily := Operator.family_of_isAggregate hc
    obtain ⟨ns, rfl, -, hns⟩ := exists_nodes hfamily ho
    obtain ⟨m, hm, hmx⟩ := exists_left_of_forall₂ hns x hx
    obtain hn | ⟨t, hn⟩ := hn
    · -- What is refused in an argument is nested in the aggregate, if it is not nested in itself.
      have hcontains : m.containsAggregate = true := by
        obtain hnests | ⟨-, hcontains⟩ := ih he hmx (hn.operand hfamily hm)
        · exact containsAggregate_of_nestsAggregates hnests
        · exact hcontains
      have := List.any_eq_true.2 ⟨m, hm, hcontains⟩
      rw [nestsAggregates_call (Operator.ne_scalarQuery hfamily)]
      exact .inl (by simp [this, hc])
    · cases hn
  | _ =>
    obtain ⟨f, a, hf, hkind, -⟩ := he
    cases hf
    cases hkind

/-- Where rows are grouped the results are made of groups. -/
lemma Select.HasResults.isRowContext_eq {q : Select} {c : Catalog} {s : Scope}
    (hs : q.HasResults c s) (hq : q.needsGrouping = true) : s.isRowContext = false := by
  obtain ⟨row, w, ⟨n, v, -, hsource⟩, hs⟩ := hs
  rw [groupSteps, if_pos hq] at hs
  obtain ⟨keys, -, hs⟩ := Outcome.bind_eq_ok.1 (inClause_eq_ok.1 hs)
  cases hs
  simp [Scope.isRowContext, Scope.startGrouping, Scope.isGrouped, (grouping_sourceSteps hsource).2,
    Scope.initial]

lemma Select.IsWritten.uses {q : Select} (hq : q.IsWritten) {n : Node} {use : Operand.Use}
    (hn : q.Uses n use) : n.IsWritten .expression := by
  obtain ⟨hitems, -, -, -, hhaving, horderBy⟩ := Select.isWritten_iff.1 hq
  cases hn with
  | item hn => exact (hitems _ hn).item_cases.1
  | having hn => exact hhaving _ hn
  | sorting hk => exact horderBy _ hk

/-- A query fails over an aggregate only that it filters or groups rows by, or that stands in the
argument of another in its results. -/
lemma Select.FailsOver.places {q : Select} {c : Catalog} {e : Failure} (h : q.FailsOver c e)
    (he : e.IsOverAggregate) (hq : q.IsWritten) :
    (∃ n ∈ q.filter, n.containsAggregate = true) ∨ (∃ n ∈ q.groupBy, n.containsAggregate = true) ∨
      ∃ n use, q.Uses n use ∧ n.nestsAggregates = true := by
  obtain ⟨-, -, hfilter, hgroupBy, -, -⟩ := Select.isWritten_iff.1 hq
  -- Where there is an aggregate in the results there are groups, and no aggregate is refused.
  have hresult {n : Node} {use : Operand.Use} {s : Scope} (hn : q.Uses n use)
      (hs : q.HasResults c s) (h : n.nestsAggregates = true ∨
        (s.isRowContext = true ∧ n.containsAggregate = true)) : n.nestsAggregates = true := by
    obtain h | ⟨hrow, hcontains⟩ := h
    · exact h
    · simp [hs.isRowContext_eq (needsGrouping_of_uses hn hcontains)] at hrow
  induction h with
  | @filter n o row e hn _ ho h =>
    obtain h | ⟨-, h⟩ := (Operand.raises_filter _ _ _ h).places he ho (.inl (hfilter n hn))
    · exact .inl ⟨n, hn, containsAggregate_of_nestsAggregates h⟩
    · exact .inl ⟨n, hn, h⟩
  | @key n o row e hn _ ho h =>
    obtain h | ⟨-, h⟩ := (Operand.raises_value _ _ _ h).places he ho (.inl (hgroupBy n hn))
    · exact .inr (.inl ⟨n, hn, containsAggregate_of_nestsAggregates h⟩)
    · exact .inr (.inl ⟨n, hn, h⟩)
  | value hn hs ho h =>
    have h := (Operand.raises_value _ _ _ h).places he ho (.inl (hq.uses hn))
    exact .inr (.inr ⟨_, _, hn, hresult hn hs h⟩)
  | having hn hs ho h =>
    have h := (Operand.raises_filter _ _ _ h).places he ho (.inl (hq.uses (.having hn)))
    exact .inr (.inr ⟨_, _, .having hn, hresult (.having hn) hs h⟩)
  | none h => simp [he.isOfSteps] at h
  | within clause _ ih => exact ih he.of_within

/-! ### Aggregates of a text -/

section

variable {c : Catalog} {ts : Tables} {p : Node → Bool}

mutual
/-- What resolving does not change of a node it changes of no part of an expression. -/
theorem any_parts_resolve (hp : ∀ m m', resolve c ts m = .ok m' → p m' = p m) {n n' : Node}
    (h : resolve c ts n = .ok n') : n'.parts.any p = n.parts.any p := by
  have hroot := hp n n' h
  cases n with
  | identifier i =>
    obtain ⟨i', -, rfl⟩ := Outcome.map_eq_ok.1 h
    simpa [Node.parts] using hroot
  | list ns =>
    obtain ⟨ns', hns, rfl⟩ := Outcome.map_eq_ok.1 h
    rw [any_parts_list, any_parts_list, hroot, any_parts_resolveEach hp hns]
  | call f ns =>
    obtain ⟨type, ns', rfl, hns⟩ := resolve_call h
    cases hns with
    | query hf => simpa [Node.parts, hf] using hroot
    | @named n n' rest hf hn =>
      rw [any_parts_call p (by simp [hf]), any_parts_call p (by simp [hf]), hroot, List.any_cons,
        List.any_cons, any_parts_resolve hp hn]
    | each hquery _ hns =>
      rw [any_parts_call p hquery, any_parts_call p (by exact hquery), hroot,
        any_parts_resolveEach hp hns]
  | _ =>
    cases h
    rfl

theorem any_parts_resolveEach (hp : ∀ m m', resolve c ts m = .ok m' → p m' = p m)
    {ns ns' : List Node} (h : resolveEach c ts ns = .ok ns') :
    ns'.any (·.parts.any p) = ns.any (·.parts.any p) := by
  cases ns with
  | nil =>
    cases h
    rfl
  | cons n ns =>
    obtain ⟨n', hn, h⟩ := Outcome.bind_eq_ok.1 h
    obtain ⟨ns', hns, h⟩ := Outcome.bind_eq_ok.1 h
    cases h
    rw [List.any_cons, List.any_cons, any_parts_resolve hp hn, any_parts_resolveEach hp hns]
end

lemma isAggregate_resolve {n n' : Node} (h : resolve c ts n = .ok n') :
    n'.isAggregate = n.isAggregate := by
  cases n with
  | call f ns =>
    obtain ⟨type, ns', rfl, -⟩ := resolve_call h
    rfl
  | identifier | list =>
    obtain ⟨_, -, rfl⟩ := Outcome.map_eq_ok.1 h
    rfl
  | _ =>
    cases h
    rfl

lemma containsAggregate_resolve {n n' : Node} (h : resolve c ts n = .ok n') :
    n'.containsAggregate = n.containsAggregate :=
  any_parts_resolve (fun _ _ => isAggregate_resolve) h

lemma nestsAggregates_resolve {n n' : Node} (h : resolve c ts n = .ok n') :
    n'.nestsAggregates = n.nestsAggregates := by
  refine any_parts_resolve (fun m m' hm => ?_) h
  cases m with
  | call f ns =>
    obtain ⟨type, ns', rfl, hns⟩ := resolve_call hm
    cases hns with
    | query hf | named hf => simp [hf, Operator.isAggregate]
    | each _ _ hns =>
      have hany : ns'.any Node.containsAggregate = ns.any Node.containsAggregate :=
        any_parts_resolveEach (fun _ _ => isAggregate_resolve) hns
      simp only [hany]
  | identifier | list =>
    obtain ⟨_, -, rfl⟩ := Outcome.map_eq_ok.1 hm
    rfl
  | _ =>
    cases hm
    rfl

end

namespace Select

variable {c : Catalog} {ts : Tables} {q q' : Select}

/-- The aggregates of the results stand where they do in the text. -/
lemma ResolvesTo.exists_nested (h : q.ResolvesTo c ts q') {n' : Node} {use : Operand.Use}
    (hn' : q'.Uses n' use) (hnests : n'.nestsAggregates = true) :
    ∃ n ∈ q.expressions, n.nestsAggregates = true := by
  cases hn' with
  | @item n' hn' =>
    obtain ⟨m, hm, hr⟩ := exists_left_of_forall₂ (forall₂_resolveItems h.items) n' hn'
    obtain ⟨n, hn, hm⟩ := List.mem_flatMap.1 hm
    have hnests : m.nestsAggregates = true :=
      (nestsAggregates_resolve hr).symm.trans (any_parts_expression _ hnests)
    obtain rfl | ⟨i, rfl, -⟩ := Tables.mem_expand hm
    · exact ⟨m, by simp [expressions, hn], hnests⟩
    · -- A column that a star stands for has no aggregate.
      cases hnests
  | having hn' =>
    obtain ⟨n, hn, hr⟩ := exists_of_resolveOption h.having hn'
    exact ⟨n, by simp [expressions, Option.mem_def.1 hn], nestsAggregates_resolve hr ▸ hnests⟩
  | @sorting k' hk' =>
    obtain ⟨named, -, horder⟩ := h.orderBy
    obtain ⟨k, hk, hkey⟩ := exists_left_of_forall₂ (forall₂_resolveKeys horder) k' hk'
    refine ⟨k.expression, List.mem_append_right _ (List.mem_map_of_mem hk), ?_⟩
    generalize k.expression = n at hkey ⊢
    generalize k'.expression = n' at hkey hnests
    cases hkey with
    | expression _ _ hr => exact nestsAggregates_resolve hr ▸ hnests
    | name | literal => cases hnests

end Select

/-- **No aggregate is refused but where it stands in the wrong place.** Rows are grouped if the
results of a query have an aggregate, be it in an item, in the condition on the groups or in what
they are ordered by, which may be the name or the place of an item. If a text has no plan for want
of steps for an aggregate, then rows are filtered or grouped by an aggregate in it, or some aggregate
in it has another in its argument. -/
theorem aggregates_are_seen {text : String} {c : Catalog} {q₀ q : Select}
    (hparse : Parser.parse text = .ok q₀) (hq : q₀.resolve c = .ok q) :
    (∀ row o, q.Plans row o → o.hasAggregate = true → q.needsGrouping = true) ∧
    ∀ source maxRows f (a : Aggregate), plan c source maxRows q = .error (.fault f) →
      f.kind = .unknownOperator → f.arguments = [.text a.name] →
      (∃ n ∈ q₀.filter, n.containsAggregate = true) ∨
        (∃ n ∈ q₀.groupBy, n.containsAggregate = true) ∨
        ∃ n ∈ q₀.expressions, n.nestsAggregates = true := by
  refine ⟨fun row o => Select.needsGrouping_of_plans, fun source maxRows f a hf hkind hargs => ?_⟩
  obtain ⟨ts, hts⟩ := resolveSelect_eq_ok hq
  have hwritten := (Parser.isWritten_of_parse hparse).resolve hq
  obtain ⟨n', hn', h⟩ | ⟨n', hn', h⟩ | ⟨n', use, hn', h⟩ :=
    (failsOver_plan c source maxRows q _ hf).places ⟨f, a, rfl, hkind, hargs⟩ hwritten
  · obtain ⟨n, hn, hr⟩ := exists_of_resolveOption hts.filter hn'
    exact .inl ⟨n, hn, containsAggregate_resolve hr ▸ h⟩
  · obtain ⟨n, hn, hr⟩ := exists_left_of_forall₂ (forall₂_resolveEach hts.groupBy) n' hn'
    exact .inr (.inl ⟨n, hn, containsAggregate_resolve hr ▸ h⟩)
  · exact .inr (.inr (hts.exists_nested hn' h))

namespace People

/-- The entry of the ordering is the name of an item, and rows are grouped because of that item. An
aggregate stands in the argument of another. -/
def maximumOfAges : String :=
  "SELECT name, NOT SUM(age + MAX(age)) > 1 AS old FROM person GROUP BY name ORDER BY old"

theorem maximum_is_nested : ∃ q₀ q f, Parser.parse maximumOfAges = .ok q₀ ∧
    q₀.resolve catalog = .ok q ∧ plan catalog none none q = .error (.fault f) ∧
    f.kind = .unknownOperator ∧ f.arguments = [.text "MAX"] ∧
    ∃ n ∈ q₀.expressions, n.nestsAggregates = true := by
  obtain ⟨q₀, q, hq₀, hq, hcheck⟩ := exists_of_resolvesWith
    (show resolvesWith maximumOfAges catalog (fun q₀ q =>
        q₀.filter.isNone && !q₀.groupBy.any Node.containsAggregate &&
          match plan catalog none none q with
          | .error (.fault f) => f.kind = .unknownOperator && f.arguments = [.text "MAX"]
          | _ => false)
      by decide +kernel)
  simp only [Bool.and_eq_true, Bool.not_eq_eq_eq_not, Bool.not_true, Option.isNone_iff_eq_none,
    List.any_eq_false] at hcheck
  obtain ⟨⟨hfilter, hgroupBy⟩, hplan⟩ := hcheck
  split at hplan
  · next f hf =>
    obtain ⟨hkind, hargs⟩ := (by simpa using hplan : f.kind = _ ∧ f.arguments = _)
    refine ⟨q₀, q, f, hq₀, hq, hf, hkind, hargs, ?_⟩
    obtain ⟨n, hn, -⟩ | ⟨n, hn, h⟩ | hnested :=
      (aggregates_are_seen hq₀ hq).2 none none f .max hf hkind hargs
    · simp [hfilter] at hn
    · exact absurd h (hgroupBy n hn)
    · exact hnested
  · cases hplan

end People

end GraphSelect
