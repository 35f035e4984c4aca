import GraphSelect.Proofs.Resolution
import GraphSelect.Proofs.TreeTokens

/-!
Resolved expressions without their types.

An expression that has been resolved differs from one that the parser builds in the types of its
columns and calls. Without them it is one, with the columns spelled as the catalog has them. Its
text shows no types.
-/

namespace GraphSelect

namespace Node

mutual
/-- An expression without the types of its columns and calls. Sub-queries are not entered. -/
def untyped : Node → Node
  | .identifier i => .identifier { i with type := none }
  | .list nodes => .list (untypedEach nodes)
  | .call f operands => .call { f with type := none } (untypedEach operands)
  | n => n

def untypedEach : List Node → List Node
  | [] => []
  | n :: ns => untyped n :: untypedEach ns
end

lemma untypedEach_eq_map (ns : List Node) : untypedEach ns = ns.map untyped := by
  induction ns with
  | nil => rfl
  | cons n ns ih => simp [untypedEach, ih]

lemma untyped_call (f : Call) (ns : List Node) :
    (Node.call f ns).untyped = .call { f with type := none } (ns.map untyped) := by
  rw [untyped, untypedEach_eq_map]

lemma untyped_list (ns : List Node) : (Node.list ns).untyped = .list (ns.map untyped) := by
  rw [untyped, untypedEach_eq_map]

lemma isBracketed_untyped (n : Node) : n.untyped.isBracketed = n.isBracketed := by
  cases n <;> simp [untyped, isBracketed]

mutual
/-- A text shows no types. -/
theorem sql?_untyped (n : Node) : n.untyped.sql? = n.sql? := by
  cases n with
  | list ns => rw [untyped, sql?, sql?, sqlEach_untypedEach]
  | call f ns =>
    have hbracket (m : Node) : m.untyped.bracket = m.bracket := by
      funext text
      simp only [bracket, isBracketed_untyped]
    have hnested : List.zipWith (fun n t => Option.map (bracket n) t) (untypedEach ns)
        (sqlEach ns) = List.zipWith (fun n t => Option.map (bracket n) t) ns (sqlEach ns) := by
      rw [untypedEach_eq_map, List.zipWith_map_left]
      simp only [hbracket]
    rw [untyped, sql?, sql?, sqlEach_untypedEach, hnested]
    rfl
  | _ => rfl

theorem sqlEach_untypedEach (ns : List Node) : sqlEach (untypedEach ns) = sqlEach ns := by
  cases ns with
  | nil => rfl
  | cons n ns => rw [untypedEach, sqlEach, sqlEach, sql?_untyped n, sqlEach_untypedEach ns]
end

/-! ### Query-free expressions -/

def isQuery : Node → Bool
  | .select _ => true
  | _ => false

/-- Whether no query stands in a tree. -/
def IsQueryFree (n : Node) : Prop := ∀ m : Node, m.StandsIn n → m.isQuery = false

lemma not_isQueryFree_select (q : Select) : ¬ (Node.select q).IsQueryFree := fun h =>
  Bool.false_ne_true (h _ .self).symm

lemma IsQueryFree.child {m n : Node} (h : n.IsQueryFree) (hm : m ∈ n.children) : m.IsQueryFree :=
  fun l hl => h l (.child hm hl)

lemma children_untyped (n : Node) : n.untyped.children = n.children ∨
    n.untyped.children = n.children.map untyped := by
  cases n with
  | list ns => exact .inr (by rw [untyped_list]; rfl)
  | call f ns => exact .inr (by rw [untyped_call]; rfl)
  | _ => exact .inl rfl

/-- What stands in an expression without its types stands in the expression, with types or not. -/
lemma exists_of_standsIn_untyped {k n : Node} (h : k.StandsIn n.untyped) :
    ∃ m : Node, m.StandsIn n ∧ (k = m ∨ k = m.untyped) := by
  generalize hN : n.untyped = N at h
  induction h generalizing n with
  | self => exact ⟨n, .self, .inr hN.symm⟩
  | @child l N hl hk ih =>
    subst hN
    rcases n.children_untyped with hsame | huntyped
    · exact ⟨k, .child (hsame ▸ hl) hk, .inl rfl⟩
    · obtain ⟨m, hm, rfl⟩ := List.mem_map.1 (huntyped ▸ hl)
      obtain ⟨m', hm', hk'⟩ := ih rfl
      exact ⟨m', .child hm hm', hk'⟩

lemma isQuery_untyped (n : Node) : n.untyped.isQuery = n.isQuery := by
  cases n <;> rfl

end Node

/-! ### Resolving -/

open Node

variable {c : Catalog} {ts : Tables}

/-- Whether every query-free expression in a tree is, without its types, one that the parser
builds. -/
def Node.KeepsExpressions (n : Node) : Prop :=
  ∀ m : Node, m.StandsIn n → m.isExpression = true → m.IsQueryFree →
    m.untyped.IsParsed False .item

/-- Whether a tree is, if it is query-free, one that the parser builds but for its types, and so are
the expressions in it. The types in a join stay, since it is no expression. -/
structure Node.IsKept (k : Category) (n : Node) : Prop where
  tree : k ≠ .tables → n.IsQueryFree → n.untyped.IsParsed False k
  expressions : n.KeepsExpressions

namespace Node

variable {k : Category} {n n' : Node}

lemma isKept_expression (h : n.IsQueryFree → n.untyped.IsParsed False .expression)
    (hchildren : ∀ k ∈ n.children, k.KeepsExpressions) : n.IsKept .expression :=
  ⟨fun _ => h, forall_standsIn (fun _ hfree => .item (h hfree)) hchildren⟩

lemma isKept_item (h : n.IsQueryFree → n.untyped.IsParsed False .item)
    (hchildren : ∀ k ∈ n.children, k.KeepsExpressions) : n.IsKept .item :=
  ⟨fun _ => h, forall_standsIn (fun _ => h) hchildren⟩

lemma keepsExpressions_of_children (hn : n.isExpression = false)
    (hchildren : ∀ k ∈ n.children, k.KeepsExpressions) : n.KeepsExpressions :=
  forall_standsIn (fun h => absurd (hn.symm.trans h) Bool.false_ne_true) hchildren

lemma keepsExpressions_table (t : TableRef) : (Node.table t).KeepsExpressions :=
  keepsExpressions_of_children rfl (List.forall_mem_nil _)

lemma IsKept.untyped (h : n.IsKept .expression) (hfree : n.IsQueryFree) :
    n.untyped.IsParsed False .expression :=
  h.tree (by decide) hfree

lemma isKept_identifier {i i' : Identifier} (h : ts.identifier i = .ok i')
    (hi : i.names.length = 1 ∨ i.names.length = 2) : (Node.identifier i').IsKept .expression := by
  refine isKept_expression (fun _ => ?_) (List.forall_mem_nil _)
  have hlength : i'.names.length = 1 ∨ i'.names.length = 2 := by
    rcases Tables.identifier_cases h with ⟨-, rfl⟩ | ⟨name, col, -, rfl⟩
    · exact hi
    · exact .inr rfl
  exact .column hlength False.elim

lemma isNumber_of_resolve (h : resolve c ts n = .ok n') : n'.untyped.isNumber = n.isNumber := by
  cases n with
  | identifier i =>
    obtain ⟨i', -, rfl⟩ := Outcome.map_eq_ok.1 h
    rfl
  | list ns =>
    obtain ⟨ns', -, rfl⟩ := Outcome.map_eq_ok.1 h
    rfl
  | call f ns =>
    obtain ⟨type, ns', rfl, -⟩ := resolve_call h
    rfl
  | _ =>
    cases h
    rfl

lemma isKept_key {named : List (String × Node)} {count : Nat}
    (h : KeyResolves c ts named count n n') (hn : n.IsParsed False .expression)
    (hresolved : ∀ n', resolve c ts n = .ok n' → n'.IsKept .expression) :
    n'.IsKept .expression := by
  cases h with
  | @name i m =>
    cases hn with
    | column h => exact isKept_expression (fun _ => .column h False.elim) (List.forall_mem_nil _)
  | literal => exact isKept_expression (fun _ => hn) (List.forall_mem_nil _)
  | expression _ _ h => exact hresolved n' h

/-- Whatever a tree resolves to is kept. -/
def StaysKept (c : Catalog) (k : Category) (n : Node) : Prop :=
  ∀ n', k.Resolves c n n' → n'.IsKept k

section

variable {f : Call} {op : Operator} {ns : List Node} {x y : Node}

lemma staysKept_call (hquery : f.operator ≠ .scalarQuery) (hname : f.operator ≠ .rename)
    (h : ∀ ts ns', List.Forall₂ (fun n n' => resolve c ts n = .ok n') ns ns' →
      (∀ n' ∈ ns', n'.KeepsExpressions) ∧
        ((∀ n' ∈ ns', n'.IsQueryFree) →
          (Node.call { f with type := none } (ns'.map Node.untyped)).IsParsed False .expression)) :
    (Node.call f ns).StaysKept c .expression := by
  rintro n' ⟨ts, hn⟩
  obtain ⟨type, ns', rfl, hns⟩ := resolve_call_each hquery hname hn
  obtain ⟨hkeeps, hbuilt⟩ := h ts ns' hns
  refine isKept_expression (fun hfree => ?_) hkeeps
  rw [untyped_call]
  exact hbuilt fun n' hn' => hfree.child hn'

/-- Operands that are expressions stay kept, and so does a call that the parser builds over any such
operands. -/
lemma staysKept_operands (hquery : f.operator ≠ .scalarQuery) (hname : f.operator ≠ .rename)
    (hns : ∀ n ∈ ns, n.StaysKept c .expression)
    (hbuilt : ∀ ts ns', List.Forall₂ (fun n n' => resolve c ts n = .ok n') ns ns' →
      (∀ n' ∈ ns'.map Node.untyped, n'.IsParsed False .expression) →
        (Node.call { f with type := none } (ns'.map Node.untyped)).IsParsed False .expression) :
    (Node.call f ns).StaysKept c .expression := by
  refine staysKept_call hquery hname fun ts ns' hresolved => ?_
  have hkept : ∀ n' ∈ ns', n'.IsKept .expression := fun n' hn' => by
    obtain ⟨n, hn, hr⟩ := exists_left_of_forall₂ hresolved n' hn'
    exact hns n hn n' ⟨ts, hr⟩
  exact ⟨fun n' hn' => (hkept n' hn').expressions, fun hfree => hbuilt ts ns' hresolved
    (List.forall_mem_map.2 fun n' hn' => (hkept n' hn').untyped (hfree n' hn'))⟩

lemma staysKept_infixed (hop : op.isInfix = true) (hx : x.StaysKept c .expression)
    (hy : y.StaysKept c .expression) : (Node.apply op [x, y]).StaysKept c .expression := by
  obtain ⟨hquery, hname, -⟩ := Operator.ne_of_affix (.inl hop)
  refine staysKept_operands hquery hname (by simpa using ⟨hx, hy⟩) fun ts ns' hns hbuilt => ?_
  obtain _ | ⟨-, _ | ⟨-, _ | _⟩⟩ := hns
  exact .infixed hop (hbuilt _ (by simp)) (hbuilt _ (by simp))

lemma staysKept_prefixed (hop : op.isPrefix = true) (hnumber : op = .negate → x.isNumber = false)
    (hx : x.StaysKept c .expression) : (Node.apply op [x]).StaysKept c .expression := by
  obtain ⟨hquery, hname, -⟩ := Operator.ne_of_affix (.inr (.inl hop))
  refine staysKept_operands hquery hname (by simpa using hx) fun ts ns' hns hbuilt => ?_
  obtain _ | ⟨hx', _ | _⟩ := hns
  exact .prefixed hop (fun hop => (isNumber_of_resolve hx').trans (hnumber hop))
    (hbuilt _ (by simp))

lemma staysKept_test (hop : op.isTest = true) (hx : x.StaysKept c .expression) :
    (Node.apply op [x]).StaysKept c .expression := by
  obtain ⟨hquery, hname, -⟩ := Operator.ne_of_affix (.inr (.inr hop))
  refine staysKept_operands hquery hname (by simpa using hx) fun ts ns' hns hbuilt => ?_
  obtain _ | ⟨-, _ | _⟩ := hns
  exact .test hop (hbuilt _ (by simp))

lemma staysKept_function (name : String) (distinct : Bool)
    (hns : ∀ n ∈ ns, n.StaysKept c .expression) :
    (Parser.functionCall name distinct ns).StaysKept c .expression := by
  obtain ⟨hquery, hname, -⟩ := Operator.ofFunctionName_ne name
  exact staysKept_operands hquery hname hns fun ts ns' _ hbuilt =>
    .function False.elim distinct hbuilt

lemma staysKept_functionOfAll (name : String) (distinct : Bool) :
    (Parser.functionCall name distinct [Parser.star]).StaysKept c .expression := by
  obtain ⟨hquery, hname, -⟩ := Operator.ofFunctionName_ne name
  refine staysKept_call hquery hname fun ts ns' hns => ?_
  obtain _ | ⟨hstar, _ | _⟩ := hns
  cases hstar
  exact ⟨List.forall_mem_singleton.2 (forall_standsIn_leaf (fun _ _ => .all) rfl),
    fun _ => .functionOfAll False.elim distinct⟩

lemma staysKept_cast {t : TypeSpec} (ht : t.IsSpelled) (hx : x.StaysKept c .expression) :
    (Node.apply .cast [x, .typeSpec t]).StaysKept c .expression := by
  refine staysKept_call (by simp) (by simp) fun ts ns' hns => ?_
  obtain _ | ⟨hx', _ | ⟨ht', _ | _⟩⟩ := hns
  cases ht'
  have hkx := hx _ ⟨ts, hx'⟩
  have htype : (Node.typeSpec t).KeepsExpressions :=
    keepsExpressions_of_children rfl (List.forall_mem_nil _)
  exact ⟨by simpa using ⟨hkx.expressions, htype⟩,
    fun hfree => .cast (hkx.untyped (hfree _ (by simp))) ht False.elim⟩

lemma staysKept_within (hne : ns ≠ []) (hx : x.StaysKept c .expression)
    (hns : ∀ n ∈ ns, n.StaysKept c .expression) :
    (Node.apply .within [x, .list ns]).StaysKept c .expression := by
  refine staysKept_call (by simp) (by simp) fun ts ns' hresolved => ?_
  obtain _ | ⟨hx', _ | ⟨hlist, _ | _⟩⟩ := hresolved
  obtain ⟨ms, hms, rfl⟩ := Outcome.map_eq_ok.1 hlist
  have hkx := hx _ ⟨ts, hx'⟩
  have hkept : ∀ m ∈ ms, m.IsKept .expression := fun m hm => by
    obtain ⟨n, hn, hr⟩ := exists_left_of_forall₂ (forall₂_resolveEach hms) m hm
    exact hns n hn m ⟨ts, hr⟩
  have hmembers : (Node.list ms).KeepsExpressions :=
    keepsExpressions_of_children rfl fun m hm => (hkept m hm).expressions
  refine ⟨by simpa using ⟨hkx.expressions, hmembers⟩, fun hfree => ?_⟩
  have hfree' : (Node.list ms).IsQueryFree := hfree _ (by simp)
  rw [List.map_cons, List.map_singleton, untyped_list]
  refine .within (hkx.untyped (hfree _ (by simp))) ?_
    (List.forall_mem_map.2 fun m hm => (hkept m hm).untyped (hfree'.child hm))
  have hlength := (forall₂_resolveEach hms).length_eq
  rintro hnil
  exact hne (List.eq_nil_of_length_eq_zero (by simpa [List.map_eq_nil_iff.1 hnil] using hlength))

lemma staysKept_scalarQuery {q : Select} (hq : (Node.select q).StaysKept c .query) :
    (Node.apply .scalarQuery [.select q]).StaysKept c .expression := by
  rintro n' ⟨ts, hn⟩
  obtain ⟨type, ns', rfl, hns⟩ := resolve_call hn
  cases hns with
  | query _ hq' =>
    have hkept := hq _ ⟨_, _, rfl, rfl, hq'⟩
    refine isKept_expression (fun hfree => ?_) (List.forall_mem_singleton.2 hkept.expressions)
    exact absurd (hfree.child (List.mem_singleton.2 rfl)) (not_isQueryFree_select _)
  | named hname => cases hname
  | each hquery => exact absurd rfl hquery

lemma staysKept_named (name : String) (hx : x.StaysKept c .expression) :
    (Node.named x name).StaysKept c .item := by
  rintro n' ⟨ts, hn⟩
  obtain ⟨type, ns', rfl, hns⟩ := resolve_call hn
  cases hns with
  | query hquery => cases hquery
  | named _ hx' =>
    have hkx := hx _ ⟨ts, hx'⟩
    have hname : (Parser.column [name]).KeepsExpressions :=
      forall_standsIn_leaf (fun _ _ => .item (.column (.inl rfl) False.elim)) rfl
    refine isKept_item (fun hfree => ?_) (by simpa [children] using ⟨hkx.expressions, hname⟩)
    rw [untyped_call]
    exact .named (hkx.untyped (hfree.child (by simp [children]))) False.elim
  | each _ hname => exact absurd rfl hname

lemma staysKept_table (t : TableRef) : (Node.table t).StaysKept c .tables := by
  rintro n' ⟨ts, ts', hn⟩
  obtain ⟨rfl, -⟩ := resolveSource_table hn
  exact ⟨(absurd rfl ·), keepsExpressions_table t⟩

lemma staysKept_join (kind : JoinKind) (t : TableRef) {on : Option Node}
    (hx : x.StaysKept c .tables) (hon : ∀ y ∈ on, y.StaysKept c .expression) :
    (Node.join x kind (.table t) on).StaysKept c .tables := by
  rintro n' ⟨ts, ts', hn⟩
  obtain ⟨left, right, condition, ts₁, rfl, hleft, hright, hcondition⟩ := resolveSource_join hn
  obtain ⟨rfl, -⟩ := resolveSource_table hright
  have hkept : ∀ y' ∈ condition, y'.KeepsExpressions := fun y' hy' => by
    obtain ⟨y, hy, hr⟩ := exists_of_resolveOption hcondition hy'
    exact (hon y hy y' ⟨ts', hr⟩).expressions
  refine ⟨(absurd rfl ·), keepsExpressions_of_children rfl ?_⟩
  simpa [children, or_imp, forall_and] using
    ⟨(hx left ⟨ts, ts₁, hleft⟩).expressions, keepsExpressions_table t, hkept⟩

/-- Of a query the expressions in all clauses are kept. -/
lemma staysKept_query {q : Select}
    (items : ∀ n ∈ q.items, n.StaysKept c .item)
    (source : ∀ n ∈ q.source, n.StaysKept c .tables)
    (filter : ∀ n ∈ q.filter, n.StaysKept c .expression)
    (groupBy : ∀ n ∈ q.groupBy, n.StaysKept c .expression)
    (having : ∀ n ∈ q.having, n.StaysKept c .expression)
    (orderBy : ∀ key ∈ q.orderBy, key.expression.IsParsed False .expression ∧
      key.expression.StaysKept c .expression) : (Node.select q).StaysKept c .query := by
  rintro n' ⟨q, q', hq, rfl, hn⟩
  cases hq
  obtain ⟨ts, hts⟩ := resolveSelect_eq_ok hn
  refine ⟨fun _ hfree => absurd hfree (not_isQueryFree_select _),
    keepsExpressions_of_children rfl ?_⟩
  simp only [children, List.forall_mem_append, Option.mem_toList, List.forall_mem_map]
  refine ⟨⟨⟨⟨⟨fun n' hn' => ?_, fun n' hn' => ?_⟩, fun n' hn' => ?_⟩, fun n' hn' => ?_⟩,
    fun n' hn' => ?_⟩, fun k' hk' => ?_⟩
  · obtain ⟨m, hm, hr⟩ := exists_left_of_forall₂ (forall₂_resolveItems hts.items) n' hn'
    obtain ⟨n, hn, hm⟩ := List.mem_flatMap.1 hm
    rcases Tables.mem_expand hm with rfl | ⟨i, rfl, hi⟩
    · exact (items m hn n' ⟨ts, hr⟩).expressions
    · obtain ⟨i', hi', rfl⟩ := Outcome.map_eq_ok.1 hr
      exact (isKept_identifier hi' (.inr hi)).expressions
  · obtain ⟨n, hn, hr⟩ := hts.exists_source hn'
    exact (source n hn n' ⟨[], ts, hr⟩).expressions
  · obtain ⟨n, hn, hr⟩ := exists_of_resolveOption hts.filter hn'
    exact (filter n hn n' ⟨ts, hr⟩).expressions
  · obtain ⟨n, hn, hr⟩ := exists_left_of_forall₂ (forall₂_resolveEach hts.groupBy) n' hn'
    exact (groupBy n hn n' ⟨ts, hr⟩).expressions
  · obtain ⟨n, hn, hr⟩ := exists_of_resolveOption hts.having hn'
    exact (having n hn n' ⟨ts, hr⟩).expressions
  · obtain ⟨named, -, horder⟩ := hts.orderBy
    obtain ⟨k, hk, hkey⟩ := exists_left_of_forall₂ (forall₂_resolveKeys horder) k' hk'
    obtain ⟨hparsed, hkept⟩ := orderBy k hk
    exact (isKept_key hkey hparsed fun n' hr => hkept n' ⟨ts, hr⟩).expressions

end

/-- Resolving changes types only, and the names of columns. -/
theorem IsParsed.staysKept (h : n.IsParsed False k) : n.StaysKept c k := by
  induction h with
  | column h =>
    rintro n' ⟨ts, hn⟩
    obtain ⟨i', hi, rfl⟩ := Outcome.map_eq_ok.1 hn
    exact isKept_identifier hi h
  | literal h =>
    rintro n' ⟨ts, hn⟩
    cases hn
    exact isKept_expression (fun _ => .literal h) (List.forall_mem_nil _)
  | infixed hop _ _ ihx ihy => exact staysKept_infixed hop ihx ihy
  | prefixed hop hnumber _ ih => exact staysKept_prefixed hop hnumber ih
  | test hop _ ih => exact staysKept_test hop ih
  | function _ distinct _ ih => exact staysKept_function _ distinct ih
  | functionOfAll _ distinct => exact staysKept_functionOfAll _ distinct
  | cast _ ht _ ih => exact staysKept_cast ht ih
  | within _ hne _ ihx ih => exact staysKept_within hne ihx ih
  | scalarQuery _ ih => exact staysKept_scalarQuery ih
  | item _ ih =>
    intro n' hn
    have hkept := ih n' hn
    exact ⟨fun _ hfree => .item (hkept.untyped hfree), hkept.expressions⟩
  | all =>
    rintro n' ⟨ts, hn⟩
    cases hn
    exact isKept_item (fun _ => .all) (List.forall_mem_nil _)
  | allOf hw =>
    rintro n' ⟨ts, hn⟩
    cases hn
    exact isKept_item (fun _ => .allOf hw) (List.forall_mem_nil _)
  | named _ _ ih => exact staysKept_named _ ih
  | table => exact staysKept_table _
  | join _ kind _ ih => exact staysKept_join kind _ ih (by simp)
  | joinOn _ _ _ _ ihx ihy => exact staysKept_join _ _ ihx (by simpa using ihy)
  | query _ items _ _ _ _ orderBy _ _ ihItems ihSource ihFilter ihGroupBy ihHaving ihOrderBy =>
    exact staysKept_query ihItems ihSource ihFilter ihGroupBy ihHaving
      fun key hkey => ⟨orderBy key hkey, ihOrderBy key hkey⟩

end Node

end GraphSelect
