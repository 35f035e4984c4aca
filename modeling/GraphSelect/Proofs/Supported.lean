import GraphSelect.Proofs.Conditions
import GraphSelect.Proofs.SameNames

/-!
Supported queries are never refused.

A traversal can do little for an expression: read columns and constants, compare, combine and negate
them, test for `NULL`, and cast where this changes nothing or makes a text. It can do it for all such
expressions, however they are nested. The grammar gives an operator the operands that it takes,
resolving has found the columns and typed them, and the tables of a row are those in which the columns
have been found.
-/

namespace GraphSelect

/-! ### What is supported -/

namespace Node

/-- Whether a part of an expression has steps at every row. A cast makes a text or leaves the type as
it is, and a star is no column. -/
def isSupportedPart : Node → Bool
  | .identifier i => !i.isStar
  | .literal _ | .typeSpec _ => true
  | .call c operands =>
    match c.operator, operands with
    | .cast, [x, .typeSpec t] => t.type = .varchar || t.type = x.type
    | op, _ => op.takesOne || op.takesTwo
  | _ => false

/-- Whether an expression is made of such parts, nested in any way. -/
def isSupported (n : Node) : Bool := n.parts.all isSupportedPart

/-- A `FROM` clause of one table, or of vertices joined one after the other, each along an edge that
the catalog has for a column of it and one of a table before. The bindings are those of its tables. -/
inductive IsChain (c : Catalog) : List Binding → Node → Prop
  | table {t : TableRef} {table : Table} (ht : c.table t.name = .ok table) :
      IsChain c [⟨t.binding, table⟩] (.table t)
  | join {bs : List Binding} {left : Node} {t : TableRef} {condition : Option Node} {b : Binding}
      {table : Table} {i j : Identifier} {w : Walk} (hleft : IsChain c bs left)
      (hvertices : ∀ b ∈ bs, b.table.isVertex = true) (ht : c.table t.name = .ok table)
      (hvertex : table.isVertex = true) (hb : b ∈ bs) (hon : Equates b.name t.binding i j condition)
      (hw : c.walk b.table.name table.name (some i.simple) (some j.simple) = .ok w) :
      IsChain c (bs ++ [⟨t.binding, table⟩]) (.join left .inner (.table t) condition)

end Node

/-- A query without groups whose tables are a chain and whose expressions are supported. -/
structure Select.IsSupported (c : Catalog) (q : Select) : Prop where
  source : ∃ n bs, q.source = some n ∧ n.IsChain c bs
  items : ∀ n ∈ q.items, n.expression.isSupported = true
  filter : ∀ n ∈ q.filter, n.isSupported = true
  orderBy : ∀ k ∈ q.orderBy, k.expression.isSupported = true
  groupBy : q.groupBy = []
  having : q.having = none
  offset : q.offset = none

/-! ### Expressions -/

/-- An operand that has steps at every row of a scope. -/
abbrev Operand.HasSteps (s : Scope) (o : Operand) : Prop :=
  o.Evaluable (Operand.type s) s.Owns fun _ => True

namespace Operand.HasSteps

variable {s : Scope} {o : Operand}

/-- Steps that compute something at the rows of some graph are there, whatever the graph. -/
lemma understood (hs : s.isRowContext = true) (ho : o.HasSteps s) :
    ∃ (t : Traverser Nat Value) (column? : Identifier → Option Value),
      Understood People.executor s t (Operand.type s) column? o := by
  obtain ⟨t, ht⟩ := Executor.exists_standsAt (D := Value) s fun _ => (0 : Nat)
  exact ⟨t, _, Evaluable.understood (fun i hi => ht.sees hs hi)
    (fun k _ => Scope.isGroupKey_of_isRowContext hs k) (fun _ => rfl) ho⟩

lemma exists_value (hs : s.isRowContext = true) (ho : o.HasSteps s) : ∃ v, o.value s = .ok v := by
  obtain ⟨t, column?, hu⟩ := ho.understood hs
  obtain ⟨v, hv⟩ := hu.evaluates
  obtain ⟨w, hw, -⟩ := hv.value
  exact ⟨w, hw⟩

lemma exists_filter (hs : s.isRowContext = true) (ho : o.HasSteps s) :
    ∃ v, o.filter s = .ok v := by
  obtain ⟨t, column?, hu⟩ := ho.understood hs
  obtain ⟨v, hv⟩ := hu.evaluates
  obtain ⟨w, hw, -⟩ := hv.filter
  exact ⟨w, hw⟩

/-- An operand with steps has a name as a result column, and a type. -/
lemma exists_name (ho : o.HasSteps s) : ∃ name, o.name = .ok name := by
  cases ho with
  | column | constant | one | two | cast => exact ⟨_, rfl⟩

lemma exists_type (ho : o.HasSteps s) : ∃ type, o.type s = .ok type := by
  cases ho with
  | @column i h =>
    obtain ⟨b, col, howner⟩ := h
    rw [Operand.type]
    cases i.type with
    | some type => exact ⟨type, rfl⟩
    | none => exact ⟨col.type, by simp [Scope.typeOf, howner]⟩
  | constant | one | two | cast => exact ⟨_, rfl⟩

lemma rename (ho : o.HasSteps s) (label : String) : (o.rename label).HasSteps s := by
  cases ho with
  | column h => exact .column h
  | constant l => exact .constant l
  | one hc ht h => exact .one hc ht h
  | two hc ht h h' => exact .two hc ht h h'
  | cast hc ht h hold hnew => exact .cast hc ht h hold hnew

end Operand.HasSteps

section

variable {s : Scope} {c : Catalog} {n n' : Node}

/-- A column that has been resolved by the tables of a scope is one of theirs, and typed. -/
def Scope.Resolved (s : Scope) (i : Identifier) : Prop :=
  i.isStar = false → s.Owns i ∧ i.type.isSome = true

lemma resolved_of_resolve (hs : s.labels.Nodup) (h : resolve c s.tables n = .ok n') :
    ∀ i ∈ n'.references, s.Resolved i := by
  intro i' hi' hstar
  obtain ⟨i, -, hi⟩ := exists_left_of_forall₂ (references_resolve h) i' hi'
  obtain ⟨b, col, -, -, howner⟩ := Scope.sameColumn_of_resolves hs hi hstar
  refine ⟨⟨b, col, howner⟩, ?_⟩
  rcases Tables.identifier_cases hi with ⟨-, rfl⟩ | ⟨name, col, -, rfl⟩ <;> rfl

lemma Operator.takesOne_of_affix {op : Operator} (h : op.isPrefix = true ∨ op.isTest = true) :
    op.takesOne = true := by
  cases op <;> simp_all [isPrefix, isTest]

lemma Operator.takesTwo_of_isInfix {op : Operator} (h : op.isInfix = true)
    (htakes : (op.takesOne || op.takesTwo) = true) : op.takesTwo = true := by
  cases op <;> simp_all [isInfix]

lemma Operator.isAggregate_of_takes {op : Operator} (h : (op.takesOne || op.takesTwo) = true) :
    op.isAggregate = false := by
  cases op <;> simp_all [isAggregate]

namespace Node

lemma isSupportedPart_call {f : Call} (hf : f.operator ≠ .cast) (ns : List Node) :
    (Node.call f ns).isSupportedPart = (f.operator.takesOne || f.operator.takesTwo) := by
  unfold isSupportedPart
  dsimp only
  split
  · next hcast => exact absurd hcast hf
  · rfl

lemma isSupported_call {f : Call} {ns : List Node} (hf : f.operator ≠ .scalarQuery) :
    (Node.call f ns).isSupported = true ↔
      (Node.call f ns).isSupportedPart = true ∧ ∀ n ∈ ns, n.isSupported = true := by
  rw [isSupported, parts, if_neg hf, partsEach_eq_flatMap, List.all_cons, List.all_flatMap,
    Bool.and_eq_true, List.all_eq_true]
  rfl

/-- The operand of an expression has the type of the expression. -/
lemma Wraps.type_eq {o : Operand} (h : n.Wraps o)
    (hcolumn : ∀ i, n = .identifier i → i.type.isSome = true) : o.type s = .ok n.type := by
  cases n with
  | identifier i =>
    obtain ⟨type, htype⟩ := Option.isSome_iff_exists.1 (hcolumn i rfl)
    cases h.1
    simp [Operand.type, Node.type, Node.type?, htype]
  | literal | typeSpec =>
    cases h.1
    rfl
  | call f ns =>
    obtain ⟨text, htext⟩ := h.2
    have ho := h.1
    rw [Operand.ofNode_call] at ho
    obtain ⟨os, -, ho⟩ := Outcome.bind_eq_ok.1 ho
    obtain ⟨_, -, ho⟩ := Outcome.bind_eq_ok.1 ho
    cases ho
    rfl
  | _ => simp [Wraps, Operand.ofNode] at h

/-- A supported expression whose columns are resolved becomes an operand with steps. -/
theorem exists_hasSteps {k : Category} (h : n.IsWritten k) (hk : k = .expression)
    (hn : n.isSupported = true) (hcolumns : ∀ i ∈ n.references, s.Resolved i) :
    ∃ o, n.Wraps o ∧ o.HasSteps s := by
  -- The operands of a supported call are supported, and their columns are among those of the call.
  have hcall {f : Call} {ns : List Node} (hquery : f.operator ≠ .scalarQuery)
      (hname : f.operator ≠ .rename) (hn : (Node.call f ns).isSupported = true)
      (hcolumns : ∀ i ∈ (Node.call f ns).references, s.Resolved i) :
      (Node.call f ns).isSupportedPart = true ∧
        ∀ n ∈ ns, n.isSupported = true ∧ ∀ i ∈ n.references, s.Resolved i := by
    rw [references_call hquery hname] at hcolumns
    obtain ⟨hpart, hns⟩ := (isSupported_call hquery).1 hn
    exact ⟨hpart, fun n hn => ⟨hns n hn, fun i hi => hcolumns i (List.mem_flatMap.2 ⟨n, hn, hi⟩)⟩⟩
  induction h with
  | @column i =>
    have hstar : i.isStar = false := by simpa [isSupported, parts, isSupportedPart] using hn
    obtain ⟨howns, -⟩ := hcolumns i (by simp [references]) hstar
    exact ⟨.column i, ⟨rfl, _, rfl⟩, .column howns⟩
  | @literal l => exact ⟨.constant l, ⟨rfl, _, rfl⟩, .constant l⟩
  | @infixed f x y hf _ _ ihx ihy =>
    obtain ⟨hquery, hname, hcast⟩ := Operator.ne_of_affix (.inl hf)
    obtain ⟨hpart, hns⟩ := hcall hquery hname hn hcolumns
    rw [isSupportedPart_call hcast] at hpart
    have htwo := Operator.takesTwo_of_isInfix hf hpart
    obtain ⟨o, ho, hsteps⟩ := ihx rfl (hns x (by simp)).1 (hns x (by simp)).2
    obtain ⟨o', ho', hsteps'⟩ := ihy rfl (hns y (by simp)).1 (hns y (by simp)).2
    obtain ⟨text, hw⟩ := ho.two htwo ho'
    exact ⟨_, hw, .two htwo trivial hsteps hsteps'⟩
  | @prefixed f x hf _ ih =>
    obtain ⟨hquery, hname, -⟩ := Operator.ne_of_affix (.inr (.inl hf))
    obtain ⟨-, hns⟩ := hcall hquery hname hn hcolumns
    have hone := Operator.takesOne_of_affix (.inl hf)
    obtain ⟨o, ho, hsteps⟩ := ih rfl (hns x (by simp)).1 (hns x (by simp)).2
    obtain ⟨text, hw⟩ := ho.one hone
    exact ⟨_, hw, .one hone trivial hsteps⟩
  | @test f x hf _ ih =>
    obtain ⟨hquery, hname, -⟩ := Operator.ne_of_affix (.inr (.inr hf))
    obtain ⟨-, hns⟩ := hcall hquery hname hn hcolumns
    have hone := Operator.takesOne_of_affix (.inr hf)
    obtain ⟨o, ho, hsteps⟩ := ih rfl (hns x (by simp)).1 (hns x (by simp)).2
    obtain ⟨text, hw⟩ := ho.one hone
    exact ⟨_, hw, .one hone trivial hsteps⟩
  | @function f xs name hf =>
    -- No operator that is supported is written as a function.
    obtain ⟨hpart, -⟩ := hcall (hf ▸ (Operator.ofFunctionName_ne name).1)
      (hf ▸ (Operator.ofFunctionName_ne name).2.1) hn hcolumns
    unfold Operator.ofFunctionName at hf
    dsimp only at hf
    split at hf <;> simp [isSupportedPart, hf] at hpart
  | @cast f x hf _ t ih =>
    obtain ⟨hpart, hns⟩ := hcall (by simp [hf]) (by simp [hf]) hn hcolumns
    have ht : t.type = .varchar ∨ t.type = x.type := by simpa [isSupportedPart, hf] using hpart
    obtain ⟨hx, hxcolumns⟩ := hns x (by simp)
    obtain ⟨o, ho, hsteps⟩ := ih rfl hx hxcolumns
    have htype : o.type s = .ok x.type := by
      refine ho.type_eq fun i hi => ?_
      subst hi
      have hstar : i.isStar = false := by simpa [isSupported, parts, isSupportedPart] using hx
      exact (hxcolumns i (by simp [references]) hstar).2
    obtain ⟨u, hu⟩ := ho.2
    obtain ⟨text, hw⟩ := Wraps.call (f := f) (by simp [hf, Operator.family])
      (.cons ho (.cons (show (Node.typeSpec t).Wraps (.target t) from ⟨rfl, _, rfl⟩) .nil))
      (by simp [sql?, sqlEach, callText?, hf, hu])
    exact ⟨_, hw, .cast hf trivial hsteps htype ht⟩
  | @within f x xs hf =>
    obtain ⟨hpart, -⟩ := hcall (by simp [hf]) (by simp [hf]) hn hcolumns
    simp [isSupportedPart, hf] at hpart
  | @scalarQuery f q hf =>
    rw [isSupported, parts, if_pos hf] at hn
    simp [isSupportedPart, hf] at hn
  | _ => cases hk

/-- No aggregate is supported. -/
lemma containsAggregate_of_isSupported (h : n.isSupported = true) : n.containsAggregate = false := by
  refine List.any_eq_false.2 fun m hm haggregate => ?_
  have hpart := List.all_eq_true.1 h m hm
  cases m with
  | call f ns =>
    have haggregate : f.operator.isAggregate = true := haggregate
    by_cases hf : f.operator = .cast
    · simp [hf, Operator.isAggregate] at haggregate
    · rw [isSupportedPart_call hf] at hpart
      simp [Operator.isAggregate_of_takes hpart] at haggregate
  | _ => cases haggregate

end Node

/-! ### Tables -/

/-- A vertex is joined along the edge that the catalog has for it and a table before. -/
lemma exists_joinSteps {t : TableRef} {condition : Option Node} {table : Table} {b : Binding}
    {i j : Identifier} {w : Walk} {s' : Scope} (hnodup : s.labels.Nodup)
    (hs : s.bind t.binding table = .ok s') (ht : s.catalog.table t.name = .ok table)
    (hb : b ∈ s.bindings) (hvertices : b.table.isVertex = true ∧ table.isVertex = true)
    (hon : Equates b.name t.binding i j condition)
    (hw : s.catalog.walk b.table.name table.name (some i.simple) (some j.simple) = .ok w) :
    ∃ v, joinSteps s t condition = .ok (s', v) := by
  have hother : b.name ≠ t.binding := (Scope.bind_eq_ok hs).1 b hb
  have hcolumns := joinColumns_eq_ok.2 ⟨_, hother, hon⟩
  obtain ⟨k, hk⟩ := hon.names
  have hbinding : s.binding (i.names.headD "") = .ok b := by
    simp [hk, Scope.binding, Scope.binding?_of_mem hnodup hb]
  simp only [joinSteps, ht, hcolumns, hbinding, hvertices, hw, hs, Outcome.ok_bind,
    Bool.not_true, Bool.or_self, Bool.false_eq_true, if_false]
  exact ⟨_, rfl⟩

/-- The tables of a chain that has been resolved are bound one after the other. -/
theorem exists_sourceSteps {bs : List Binding} {ts : Tables} (h : n'.IsChain c bs)
    (hr : resolveSource c [] n = .ok (ts, n')) :
    ∃ v, sourceSteps (.initial c) n' = .ok (⟨c, bs, none, false⟩, v) := by
  induction h generalizing n ts with
  | @table t table ht =>
    refine ⟨[if table.isVertex then .vertices else .edges, .hasLabel table.label,
      .label t.binding], ?_⟩
    simp [sourceSteps, tableSteps, Scope.initial, ht, Scope.bind, Scope.binding?]
  | @join bs left t condition b table i j w hleft hvertices ht hvertex hb hon hw ih =>
    obtain ⟨left₀, right₀, condition₀, ts₁, rfl, hrleft, hright, -⟩ := resolveSource_eq_join hr
    obtain ⟨v, hv⟩ := ih hrleft
    obtain ⟨rfl, -, hnodup, -⟩ := sources_agree hrleft ⟨v, hv⟩
    obtain ⟨rfl, table', ht', hadd⟩ := resolveSource_eq_table hright
    obtain rfl : table' = table := Except.ok.inj (ht'.symm.trans ht)
    obtain ⟨s', hs, -⟩ := Scope.exists_bind hadd
    obtain ⟨-, rfl⟩ := Scope.bind_eq_ok hs
    obtain ⟨w', hw'⟩ := exists_joinSteps hnodup hs ht hb ⟨hvertices b hb, hvertex⟩ hon hw
    exact ⟨v ++ w', by simp [sourceSteps, hv, hw']⟩

/-! ### Items and keys -/

lemma Node.IsWritten.exists_unnamed (h : n.IsWritten .item) :
    ∃ a, unnamed n = .ok (n.expression, a) := by
  cases h with
  | item h =>
    refine ⟨none, ?_⟩
    rw [h.expression_eq]
    unfold unnamed
    split
    · rw [if_neg h.ne_rename]
    · rfl
  | @named f x hf _ name =>
    have hexpression : (Node.call f [x, .identifier ⟨[name], none⟩]).expression = x := if_pos hf
    exact ⟨some name, by simp [unnamed, hf, hexpression, Identifier.simple]⟩

lemma exists_item {o : Operand} (hn : n.IsWritten .item) (ho : n.expression.Wraps o)
    (hsteps : o.HasSteps s) (used : List String) : ∃ i, item s used n = .ok i := by
  obtain ⟨a, ha⟩ := hn.exists_unnamed
  obtain ⟨name, hname⟩ := hsteps.exists_name
  obtain ⟨type, htype⟩ := hsteps.exists_type
  have hwanted : ∃ wanted, wantedName a o = .ok wanted := by
    unfold wantedName
    split
    · exact ⟨_, rfl⟩
    · exact ⟨name, hname⟩
  have hitem : ∃ type, itemType s n.expression o = .ok type := by
    unfold itemType
    split
    · exact ⟨_, rfl⟩
    · exact ⟨type, htype⟩
  obtain ⟨wanted, hwanted⟩ := hwanted
  obtain ⟨type, htype⟩ := hitem
  exact ⟨_, by simp only [item_eq, ha, ho.1, hwanted, htype, Outcome.ok_bind]; rfl⟩

/-- Whether the expression of a select item becomes an operand with steps. -/
def Node.HasSteps (s : Scope) (n : Node) : Prop :=
  n.IsWritten .item ∧ ∃ o, n.expression.Wraps o ∧ o.HasSteps s

lemma exists_itemsFrom {ns : List Node} (h : ∀ n ∈ ns, n.HasSteps s) (used : List String) :
    ∃ items, itemsFrom s used ns = .ok items ∧ ∀ i ∈ items, i.operand.HasSteps s := by
  induction ns generalizing used with
  | nil => exact ⟨[], rfl, by simp⟩
  | cons n ns ih =>
    obtain ⟨⟨hwritten, o, ho, hsteps⟩, hns⟩ := List.forall_mem_cons.1 h
    obtain ⟨i, hi⟩ := exists_item hwritten ho hsteps used
    obtain ⟨items, hitems, hall⟩ := ih hns (used ++ [i.name])
    refine ⟨i :: items, by simp [itemsFrom, hi, hitems], List.forall_mem_cons.2 ⟨?_, hall⟩⟩
    obtain ⟨e, o', he, ho', hoperand⟩ := item_cases hi
    obtain rfl := expression_of_unnamed he
    obtain rfl : o' = o := Except.ok.inj (ho'.symm.trans ho.1)
    exact hoperand ▸ hsteps.rename i.name

lemma exists_projectionSteps {items : List Item} (hs : s.isRowContext = true)
    (h : ∀ i ∈ items, i.operand.HasSteps s) : ∃ v, projectionSteps s items = .ok v := by
  obtain ⟨values, hvalues⟩ := Outcome.exists_mapM fun i hi => (h i hi).exists_value hs
  exact ⟨_, by rw [projectionSteps, hvalues]; rfl⟩

lemma exists_orderSteps {items : List Item} {keys : List (SortKey Node)}
    (hs : s.isRowContext = true)
    (h : ∀ k ∈ keys, ∃ o, sortOperand items k.expression = .ok o ∧ o.HasSteps s) :
    ∃ v, orderSteps s items keys = .ok v := by
  unfold orderSteps
  split
  · exact ⟨_, rfl⟩
  · obtain ⟨steps, hsteps⟩ := Outcome.exists_mapM (f := sortStep s items) fun k hk => by
      obtain ⟨o, ho, hsteps⟩ := h k hk
      obtain ⟨v, hv⟩ := hsteps.exists_value hs
      exact ⟨_, by rw [sortStep, ho, Outcome.ok_bind, hv]; rfl⟩
    exact ⟨_, by rw [hsteps]; rfl⟩

lemma exists_conditionSteps (clause : String) {n : Option Node} (hs : s.isRowContext = true)
    (h : ∀ m ∈ n, ∃ o, m.Wraps o ∧ o.HasSteps s) : ∃ v, conditionSteps s clause n = .ok v := by
  cases n with
  | none => exact ⟨_, rfl⟩
  | some n =>
    obtain ⟨o, ho, hsteps⟩ := h n rfl
    obtain ⟨v, hv⟩ := hsteps.exists_filter hs
    exact ⟨v, Outcome.inClause_eq_ok.2 (Outcome.bind_eq_ok.2 ⟨o, ho.1, hv⟩)⟩

end

/-! ### Queries -/

section

variable {c : Catalog} {s : Scope} {q q' : Select}

lemma references_expression {n : Node} (h : n.IsWritten .item) :
    n.expression.references = n.references := by
  rcases h.item_cases with ⟨-, hn | ⟨f, i, hf, hn⟩⟩
  · rw [← hn]
  · conv_rhs => rw [hn]
    simp [Node.references, hf]

/-- The items of a resolved query have steps. -/
lemma hasSteps_items (hs : s.labels.Nodup) (h : q.ResolvesTo c s.tables q') (hq : q'.IsWritten)
    (hsupported : q'.IsSupported c) : ∀ n ∈ q'.items, n.HasSteps s := by
  intro n' hn'
  have hwritten := (Select.isWritten_iff.1 hq).1 n' hn'
  obtain ⟨n, -, hn⟩ := exists_left_of_forall₂ (forall₂_resolveItems h.items) n' hn'
  refine ⟨hwritten, Node.exists_hasSteps hwritten.item_cases.1 rfl (hsupported.items n' hn') ?_⟩
  rw [references_expression hwritten]
  exact resolved_of_resolve hs hn

/-- An entry of an ordering has steps: those of an item if it denotes one, or its own. -/
lemma exists_sortOperand {named : List (String × Node)} {items : List Item} {n n' : Node}
    (hs : s.labels.Nodup) (hall : ∀ i ∈ items, i.operand.HasSteps s)
    (h : SortsAlike c s.tables q named items n n') (hwritten : n'.IsWritten .expression)
    (hsupported : n'.isSupported = true) :
    ∃ o, sortOperand items n' = .ok o ∧ o.HasSteps s := by
  cases h with
  | name k _ _ _ hx h => exact ⟨_, h, hall _ (List.mem_of_getElem? hx)⟩
  | place k _ _ _ hx h => exact ⟨_, h, hall _ (List.mem_of_getElem? hx)⟩
  | expression _ _ hn h =>
    obtain ⟨o, ho, hsteps⟩ :=
      Node.exists_hasSteps hwritten rfl hsupported (resolved_of_resolve hs hn)
    exact ⟨o, h.trans ho.1, hsteps⟩

lemma hasSteps_keys (hs : s.labels.Nodup) (h : q.ResolvesTo c s.tables q') (hq : q.IsWritten)
    (hq' : q'.IsWritten) (hsupported : q'.IsSupported c) {items : List Item}
    (hitems : itemsFrom s [] q'.items = .ok items) (hall : ∀ i ∈ items, i.operand.HasSteps s) :
    ∀ k ∈ q'.orderBy, ∃ o, sortOperand items k.expression = .ok o ∧ o.HasSteps s := by
  intro k hk
  obtain ⟨named, hnamed, horder⟩ := h.orderBy
  obtain ⟨k₀, hk₀, hkey⟩ := exists_left_of_forall₂ (forall₂_resolveKeys horder) k hk
  exact exists_sortOperand hs hall
    (sortsAlike_of_resolves hitems hnamed (isSpelled_of_isWritten hq hk₀) hkey)
    ((Select.isWritten_iff.1 hq').2.2.2.2.2 k hk) (hsupported.orderBy k hk)

/-- A supported query without aggregates does not group its rows. -/
lemma needsGrouping_of_isSupported (hq : q.IsWritten) (h : q.IsSupported c) :
    q.needsGrouping = false := by
  have hitem {n : Node} (hn : n ∈ q.items) : n.containsAggregate = false := by
    have hnone := Node.containsAggregate_of_isSupported (h.items n hn)
    rcases ((Select.isWritten_iff.1 hq).1 n hn).item_cases with ⟨-, heq | ⟨f, i, hf, heq⟩⟩
    · rwa [← heq] at hnone
    · rw [heq, Node.containsAggregate, Node.parts]
      simpa [hf, Node.partsEach, Node.parts, Node.isAggregate, Operator.isAggregate,
        Node.containsAggregate] using hnone
  have hitems : q.items.any Node.containsAggregate = false :=
    List.any_eq_false.2 fun n hn => by simp [hitem hn]
  have hkeys : (q.orderBy.any fun k => k.expression.containsAggregate) = false :=
    List.any_eq_false.2 fun k hk => by
      simp [Node.containsAggregate_of_isSupported (h.orderBy k hk)]
  simp [Select.needsGrouping, h.groupBy, h.having, hitems, hkeys]

/-- A supported query that has been resolved has a plan. -/
theorem exists_plan (source : Option String) (maxRows : Option Int) (hq : q.IsWritten)
    (hresolve : q.resolve c = .ok q') (h : q'.IsSupported c) :
    ∃ p, plan c source maxRows q' = .ok p := by
  have hq' := hq.resolve hresolve
  obtain ⟨ts, hts⟩ := resolveSelect_eq_ok hresolve
  obtain ⟨n', bs, hn', hchain⟩ := h.source
  obtain ⟨n, -, hr⟩ := hts.exists_source hn'
  obtain ⟨v, hv⟩ := exists_sourceSteps hchain hr
  obtain ⟨rfl, -, hnodup, -⟩ := sources_agree hr ⟨v, hv⟩
  generalize hrow : (⟨c, bs, none, false⟩ : Scope) = row at hv hnodup hts
  have hs : row.isRowContext = true := by rw [← hrow]; rfl
  have hfilter : ∀ m ∈ q'.filter, ∃ o, m.Wraps o ∧ o.HasSteps row := by
    intro m hm
    obtain ⟨m₀, -, hm₀⟩ := exists_of_resolveOption hts.filter hm
    exact Node.exists_hasSteps ((Select.isWritten_iff.1 hq').2.2.1 m hm) rfl (h.filter m hm)
      (resolved_of_resolve hnodup hm₀)
  obtain ⟨filter, hfilter⟩ := exists_conditionSteps "WHERE" hs hfilter
  obtain ⟨items, hitems, hall⟩ := exists_itemsFrom (hasSteps_items hnodup hts hq' h) []
  obtain ⟨sorting, hsorting⟩ :=
    exists_orderSteps hs (hasSteps_keys hnodup hts hq hq' h hitems hall)
  obtain ⟨projection, hprojection⟩ := exists_projectionSteps hs hall
  have hgroups : groupSteps row q' = .ok (row, []) := by
    rw [groupSteps, needsGrouping_of_isSupported hq' h]
    rfl
  have hhaving : conditionSteps row "HAVING" q'.having = .ok [] := by rw [h.having]; rfl
  simp only [plan_of_source h.offset hn', hv, hfilter, hitems, hgroups, hhaving, hsorting,
    hprojection, Outcome.inClause, Outcome.ok_bind]
  exact ⟨_, rfl⟩

/-- **Supported queries are never refused**: if its text is that of a query that can be resolved, it
has a plan. -/
theorem converts_of_isSupported {x : Converter} {text : String} (hparse : Parser.parse text = .ok q)
    (hresolve : x.resolve q = .ok q') (h : q'.IsSupported x.catalog) :
    ∃ p, x.convert text = .ok p := by
  obtain ⟨p, hp⟩ := exists_plan x.source x.maxRows (Parser.isWritten_of_parse hparse) hresolve h
  refine ⟨p, ?_⟩
  rw [Converter.convert_of_parse hparse, hresolve]
  exact congrArg (Except.mapError ConversionError.failed) hp

end

namespace People

/-- A join with its columns the wrong way round, all kinds of expressions, and an ordering by a name
and by a place. -/
def couples : String :=
  "SELECT DISTINCT p.name AS who, CAST(q.age AS INTEGER) + -p.age FROM person p JOIN person q " ++
    "ON q.AGE = p.age WHERE NOT (p.age > 1 AND q.name IS NULL) ORDER BY who, 2 LIMIT 5"

/-- Two people who are as old as each other. -/
def isCouple : Node → Bool
  | .join (.table t) .inner (.table u) (some (.call f [.identifier i, .identifier j])) =>
    t = ⟨"person", some "p"⟩ && u = ⟨"person", some "q"⟩ && f.operator = .comparison .equal &&
      i.names = ["q", "age"] && j.names = ["p", "age"]
  | _ => false

lemma isChain_of_isCouple {n : Node} (h : isCouple n = true) : ∃ bs, n.IsChain catalog bs := by
  unfold isCouple at h
  split at h
  · next t u f i j =>
    simp only [Bool.and_eq_true, decide_eq_true_eq] at h
    obtain ⟨⟨⟨⟨rfl, rfl⟩, hf⟩, hi⟩, hj⟩ := h
    have hw : catalog.walk "person" "person" (some j.simple) (some i.simple) =
        .ok ⟨⟨"knows", "person", "person", none, none⟩, .out⟩ := by
      simp only [Identifier.simple, hi, hj]
      rfl
    exact ⟨_, .join (b := ⟨"p", table⟩) (.table rfl) (by decide) rfl rfl (by decide)
      (.back hf ⟨_, hj⟩ ⟨_, hi⟩) hw⟩
  · cases h

theorem converts_couples : ∃ q q' p, Parser.parse couples = .ok q ∧ q.resolve catalog = .ok q' ∧
    q'.IsSupported catalog ∧ (⟨catalog, none, none⟩ : Converter).convert couples = .ok p := by
  have hcheck : (match Parser.parse couples with
    | .ok q => match q.resolve catalog with
      | .ok q' => q'.source.any isCouple && q'.items.all (·.expression.isSupported) &&
          q'.filter.all Node.isSupported && q'.orderBy.all (·.expression.isSupported) &&
          q'.groupBy.isEmpty && q'.having.isNone && q'.offset.isNone
      | .error _ => false
    | .error _ => false) = true := by decide +kernel
  cases hq : Parser.parse couples with
  | error e => simp [hq] at hcheck
  | ok q =>
    cases hq' : q.resolve catalog with
    | error e => simp [hq, hq'] at hcheck
    | ok q' =>
      simp only [hq, hq', Bool.and_eq_true] at hcheck
      obtain ⟨⟨⟨⟨⟨⟨hsource, hitems⟩, hfilter⟩, horder⟩, hgroups⟩, hhaving⟩, hoffset⟩ := hcheck
      obtain ⟨n, hn, hcouple⟩ := (Option.any_eq_true _ _).1 hsource
      obtain ⟨bs, hchain⟩ := isChain_of_isCouple hcouple
      have hsupported : q'.IsSupported catalog := {
        source := ⟨n, bs, hn, hchain⟩
        items := List.all_eq_true.1 hitems
        filter := fun m hm => by
          rw [hm] at hfilter
          exact hfilter
        orderBy := List.all_eq_true.1 horder
        groupBy := List.isEmpty_iff.1 hgroups
        having := Option.isNone_iff_eq_none.1 hhaving
        offset := Option.isNone_iff_eq_none.1 hoffset }
      obtain ⟨p, hp⟩ := converts_of_isSupported (x := ⟨catalog, none, none⟩) hq hq' hsupported
      exact ⟨q, q', p, rfl, hq', hsupported, hp⟩

end People

end GraphSelect
