import GraphSelect.Proofs.Joins
import GraphSelect.Proofs.NameFaults
import GraphSelect.Proofs.Parsing
import GraphSelect.Proofs.Resolution

/-!
Names mean the same before and after planning.

A name is looked up twice: when a query is resolved, by the tables of its `FROM` clause, and when
the resolved query is planned, by the scope that grows join by join. Both know the same tables in
the same order at every join, so a column that has been resolved is found again, as the same column
of the same table, and planning fails over no name. All that resolving leaves to planning are stars
that are not select items; an aggregate may count them, and anywhere else they have no meaning.
-/

namespace GraphSelect

/-! ### Stray stars -/

namespace Node

def isStar : Node → Bool
  | .identifier i => i.isStar
  | _ => false

/-- Whether a star stands directly in a node. The arguments of an aggregate are left out. -/
def holdsStar : Node → Bool
  | .call c ns => !c.operator.isAggregate && ns.any isStar
  | .list ns => ns.any isStar
  | _ => false

/-- Whether an expression has a star other than as an argument of an aggregate. -/
def hasStray (n : Node) : Bool :=
  n.isStar || n.parts.any holdsStar

lemma hasStray_call {c : Call} (hc : c.operator ≠ .scalarQuery) {ns : List Node} {n : Node}
    (hn : n ∈ ns) (hstar : c.operator.isAggregate = true → n.isStar = false)
    (h : n.hasStray = true) : (Node.call c ns).hasStray = true := by
  have hparts : (Node.call c ns).parts = .call c ns :: ns.flatMap parts := by
    rw [parts, if_neg hc, partsEach_eq_flatMap]
  simp only [hasStray, hparts, List.any_cons, List.any_flatMap, Bool.or_eq_true] at h ⊢
  right
  rcases h with h | h
  · left
    have hc : c.operator.isAggregate = false := by
      rw [← Bool.not_eq_true]
      exact fun hc => by simp [hstar hc] at h
    simp only [holdsStar, hc, Bool.not_false, Bool.true_and]
    exact List.any_eq_true.2 ⟨n, hn, h⟩
  · exact .inr (List.any_eq_true.2 ⟨n, hn, h⟩)

/-- The conditions of the joins in a `FROM` clause. -/
def conditions : Node → List Node
  | .join left _ right condition => left.conditions ++ right.conditions ++ condition.toList
  | _ => []

/-- The name that a select item has been given. -/
def alias? : Node → Option String
  | .call c (_ :: .identifier i :: _) => if c.operator = .rename then some i.simple else none
  | _ => none

/-- The columns that an entry of an ordering refers to, unless it is the name of a select item. -/
def keyReferences (aliases : List String) : Node → List Identifier
  | .identifier i => if i.isSimple ∧ i.simple ∈ aliases then [] else [i]
  | n => n.references

end Node

namespace Select

/-- The expressions of a query, those of its joins among them. -/
def expressions (q : Select) : List Node :=
  q.items ++ (q.source.map Node.conditions).getD [] ++ q.filter.toList ++ q.groupBy ++
    q.having.toList ++ q.orderBy.map (·.expression)

/-- Whether a query has a star other than as an argument of an aggregate. -/
def hasStray (q : Select) : Bool :=
  q.expressions.any Node.hasStray

/-- The names that select items have been given. -/
def aliases (q : Select) : List String :=
  q.items.filterMap Node.alias?

/-- The columns that the clauses of a query refer to. -/
def references (q : Select) : List Identifier :=
  (q.items ++ q.filter.toList ++ q.groupBy ++ q.having.toList).flatMap Node.references ++
    q.orderBy.flatMap (·.expression.keyReferences q.aliases)

/-- A query with the columns that stars among its items stand for. -/
def expand (ts : Tables) (q : Select) : Select :=
  { q with items := q.items.flatMap ts.expand }

end Select

namespace Operand

lemma isStar_ofNode {n : Node} {o : Operand} (h : ofNode n = .ok o) : o.isStar = n.isStar := by
  cases n with
  | identifier | literal | typeSpec =>
    cases h
    rfl
  | call c ns =>
    rw [ofNode_call] at h
    obtain ⟨os, -, h⟩ := Outcome.bind_eq_ok.1 h
    obtain ⟨text, -, h⟩ := Outcome.bind_eq_ok.1 h
    cases h
    rfl
  | _ => simp [ofNode] at h

/-- An operand reads only columns that its expression refers to. A star among them is stray. -/
lemma Reads.mem_references {o : Operand} {i : Identifier} (hi : o.Reads i) {n : Node}
    (h : ofNode n = .ok o) : i ∈ n.references ∧ (i.isStar = true → n.hasStray = true) := by
  induction hi generalizing n with
  | column i =>
    obtain rfl := ofNode_eq_column h
    simp +contextual [Node.references, Node.hasStray, Node.isStar]
  | @operand c text label os x i hx hstar hi ih =>
    obtain ⟨ns, rfl, hos, -⟩ := ofNode_eq_apply h
    unfold ofCall at hos
    split at hos
    · cases hos
      obtain ⟨n, -, rfl⟩ := List.mem_map.1 hx
      cases hi
    · next hc =>
      obtain ⟨n, hn, hx⟩ := exists_left_of_forall₂ (forall₂_ofNodes hos) x hx
      obtain ⟨href, hstray⟩ := ih hx
      have hquery : c.operator ≠ .scalarQuery := fun hq => hc (by rw [hq, Operator.family])
      have hname : c.operator ≠ .rename := fun hq => hc (by rw [hq, Operator.family])
      refine ⟨?_, fun hi => Node.hasStray_call hquery hn (fun ha => ?_) (hstray hi)⟩
      · rw [Node.references_call hquery hname]
        exact List.mem_flatMap.2 ⟨n, hn, href⟩
      · rw [← isStar_ofNode hx]
        exact hstar ha

end Operand

/-! ### The tables of a scope -/

namespace Scope

/-- The tables that a scope knows. -/
def tables (s : Scope) : Tables :=
  s.bindings.map fun b => (b.name, b.table)

variable {s s' : Scope} {name : String} {table : Table} {b : Binding} {col : Column}
  {i i' : Identifier}

lemma mem_tables {p : String × Table} (h : p ∈ s.tables) : ⟨p.1, p.2⟩ ∈ s.bindings := by
  obtain ⟨b, hb, rfl⟩ := List.mem_map.1 h
  exact hb

lemma catalog_bind (h : s.bind name table = .ok s') : s'.catalog = s.catalog := by
  obtain ⟨-, rfl⟩ := bind_eq_ok h
  rfl

/-- A table is bound wherever it has been added before. -/
lemma exists_bind {ts : Tables} (h : s.tables.add name table = .ok ts) :
    ∃ s', s.bind name table = .ok s' ∧ ts = s'.tables := by
  obtain ⟨hfree, rfl⟩ := Tables.add_eq_ok h
  have hnone : s.binding? name = none := by
    refine List.find?_eq_none.2 fun b hb hname => ?_
    have := List.lookup_eq_none_iff.1 hfree (b.name, b.table) (List.mem_map_of_mem hb)
    simp_all
  refine ⟨{ s with bindings := s.bindings ++ [⟨name, table⟩] }, ?_, by simp [tables]⟩
  simp [bind, hnone]

lemma nodup_labels_bind (hs : s.labels.Nodup) (h : s.bind name table = .ok s') :
    s'.labels.Nodup := by
  obtain ⟨hfree, rfl⟩ := bind_eq_ok h
  simpa [labels, List.nodup_append] using ⟨hs, hfree⟩

lemma binding?_of_mem (hs : s.labels.Nodup) (hb : b ∈ s.bindings) :
    s.binding? b.name = some b := by
  cases h : s.binding? b.name with
  | none => simpa using List.find?_eq_none.1 h b hb
  | some b' =>
    have hname : b'.name = b.name := by simpa using List.find?_some h
    rw [List.inj_on_of_nodup_map hs (List.mem_of_find?_eq_some h) hb hname]

/-- The column of a table that is bound is found by their names. -/
lemma owner_of_mem (hs : s.labels.Nodup) (hb : b ∈ s.bindings)
    (hcol : b.table.column? name = some col) (hi : i.names = [b.name, col.name])
    (hstar : i.isStar = false) : s.owner i = .ok (b, col) := by
  have hsimple : i.simple = col.name := by simp [Identifier.simple, hi]
  simp [owner, hstar, hi, binding?_of_mem hs hb, hsimple, Table.column?_name hcol]

/-- A column that a query refers to, and what it is resolved to by the tables, denote one column of
one table, which the scope finds. A star denotes none. -/
def SameColumn (s : Scope) (ts : Tables) (i i' : Identifier) : Prop :=
  i'.isStar = false → ∃ b col, ts.owner i = .ok (b.name, col) ∧
    i'.names = [b.name, col.name] ∧ s.owner i' = .ok (b, col)

lemma sameColumn_of_resolves (hs : s.labels.Nodup) (h : s.tables.Resolves i i') :
    s.SameColumn s.tables i i' := by
  intro hstar
  rcases Tables.identifier_cases h with ⟨hi, rfl⟩ | ⟨name, col, howner, rfl⟩
  · simp [Identifier.isStar, Identifier.simple] at hi hstar
    exact absurd hi hstar
  · obtain ⟨t, ht, hcol⟩ := Tables.owner_cases howner
    exact ⟨⟨name, t⟩, col, howner, rfl, owner_of_mem hs (mem_tables ht) hcol rfl hstar⟩

end Scope

/-! ### The tables of a query -/

/-- Two trees of one `FROM` clause, as it is written and as it is resolved, with the scope that the
resolved one leads to. The conditions of a join are resolved by the tables of the scope behind it,
and the table that the join starts from is the one that its column belongs to. -/
inductive SourcesAgree : Node → Node → Scope → Prop
  | table (t : TableRef) (s : Scope) : SourcesAgree (.table t) (.table t) s
  | join {left left' : Node} {s s' : Scope} (h : SourcesAgree left left' s) (t : TableRef)
      {table : Table} (hs : s.bind t.binding table = .ok s') {on on' : Option Node}
      (hon : List.Forall₂ (s'.SameColumn s'.tables) (on.toList.flatMap Node.references)
        (on'.toList.flatMap Node.references))
      (hold : ∀ old new, joinColumns on' t.binding = .ok (old, new) → old.isStar = false →
        ∃ b col, s.binding (old.names.headD "") = .ok b ∧ s'.owner old = .ok (b, col)) :
      SourcesAgree (.join left .inner (.table t) on) (.join left' .inner (.table t) on') s'

section

variable {c : Catalog} {ts : Tables} {s s' : Scope}

/-- The first of the columns that a join equates is one of its condition. -/
lemma mem_references_of_equates {a b : String} {old new : Identifier} {on : Option Node}
    (h : Equates a b old new on) :
    ∃ n, on = some n ∧ old ∈ n.references ∧ (old.isStar = true → n.hasStray = true) := by
  have hcall {f : Call} (hf : f.operator = .comparison .equal) {ns : List Node}
      (hmem : .identifier old ∈ ns) : old ∈ (Node.call f ns).references ∧
        (old.isStar = true → (Node.call f ns).hasStray = true) := by
    refine ⟨?_, fun hstar => Node.hasStray_call (by simp [hf]) hmem (by simp [hf, Operator.isAggregate])
      (by simp [Node.hasStray, Node.isStar, hstar])⟩
    rw [Node.references_call (by simp [hf]) (by simp [hf])]
    exact List.mem_flatMap.2 ⟨_, hmem, by simp [Node.references]⟩
  cases h with
  | forth hf => exact ⟨_, rfl, hcall hf (by simp)⟩
  | back hf => exact ⟨_, rfl, hcall hf (by simp)⟩

/-- The table that a join starts from is the one that its column belongs to. -/
lemma exists_joined (hnodup : s.labels.Nodup) {name : String} {table : Table}
    (hs : s.bind name table = .ok s') {on on' : Option Node}
    (hon : resolveOption c s'.tables on = .ok on') {old new : Identifier}
    (h : joinColumns on' name = .ok (old, new)) (hstar : old.isStar = false) :
    ∃ b col, s.binding (old.names.headD "") = .ok b ∧ s'.owner old = .ok (b, col) := by
  obtain ⟨a, ha, hequates⟩ := joinColumns_eq_ok.1 h
  obtain ⟨n, rfl, hold, -⟩ := mem_references_of_equates hequates
  obtain ⟨i, -, hi⟩ :=
    exists_left_of_forall₂ (references_of_forall₂ (forall₂_resolveOption hon)) old (by simpa using hold)
  obtain ⟨b, col, -, hnames, howner⟩ :=
    Scope.sameColumn_of_resolves (Scope.nodup_labels_bind hnodup hs) hi hstar
  obtain ⟨k, hk⟩ := hequates.names
  obtain rfl : b.name = a := by simp_all
  have hmem : b ∈ s.bindings := by
    have hmem := Scope.mem_of_owner howner
    obtain ⟨-, rfl⟩ := Scope.bind_eq_ok hs
    rcases List.mem_append.1 hmem with hb | hb
    · exact hb
    · rw [List.mem_singleton.1 hb] at ha
      exact absurd rfl ha
  exact ⟨b, col, by simp [Scope.binding, hk, Scope.binding?_of_mem hnodup hmem], howner⟩

/-- **Both readings of a `FROM` clause agree**, table by table and join by join. -/
theorem sources_agree {n n' : Node} (hr : resolveSource c [] n = .ok (ts, n'))
    (hn : ∃ v, sourceSteps (.initial c) n' = .ok (s, v)) :
    ts = s.tables ∧ s.catalog = c ∧ s.labels.Nodup ∧ SourcesAgree n n' s := by
  obtain ⟨v, hn⟩ := hn
  induction n' using sourceSteps.induct generalizing n ts s v with
  | case1 t =>
    obtain ⟨rfl, table, htable, hadd⟩ := resolveSource_eq_table hr
    obtain ⟨table', htable', hs, -⟩ := tableSteps_cases hn
    obtain rfl : table = table' := Except.ok.inj (htable.symm.trans htable')
    obtain ⟨s', hs', rfl⟩ := Scope.exists_bind (s := .initial c) hadd
    obtain rfl : s' = s := Except.ok.inj (hs'.symm.trans hs)
    exact ⟨rfl, Scope.catalog_bind hs, Scope.nodup_labels_bind (s := .initial c) .nil hs, .table t s'⟩
  | case2 left' t on' ih =>
    obtain ⟨left, right, on, ts₁, rfl, hleft, hright, hon⟩ := resolveSource_eq_join hr
    obtain ⟨rfl, table, htable, hadd⟩ := resolveSource_eq_table hright
    obtain ⟨⟨s₁, before⟩, hbefore, hn⟩ := Outcome.bind_eq_ok.1 hn
    obtain ⟨⟨s₂, steps⟩, hjoin, hn⟩ := Outcome.bind_eq_ok.1 hn
    cases hn
    obtain ⟨rfl, hc, hnodup, hagree⟩ := ih hleft _ hbefore
    obtain ⟨b, table', w, -, hw, -, -, hs, -⟩ := joinSteps_cases hjoin
    obtain rfl : table = table' := Except.ok.inj (htable.symm.trans (hc ▸ hw.found))
    obtain ⟨s', hs', rfl⟩ := Scope.exists_bind hadd
    obtain rfl : s' = s := Except.ok.inj (hs'.symm.trans hs)
    have hnodup' := Scope.nodup_labels_bind hnodup hs
    exact ⟨rfl, (Scope.catalog_bind hs).trans hc, hnodup', .join hagree t hs
      ((references_of_forall₂ (forall₂_resolveOption hon)).imp fun i i' => Scope.sameColumn_of_resolves hnodup')
      fun old new => exists_joined hnodup hs hon⟩
  | _ => simp_all [sourceSteps]

lemma knowsNames_binding {stray : Prop} {name : String}
    (h : stray ∨ ∃ b, s.binding name = .ok b) : (s.binding name).KnowsNames stray := by
  rcases h with h | ⟨b, hb⟩
  · unfold Scope.binding
    split
    · exact Outcome.failsIn_ok _
    · exact Outcome.knowsNames_unknown h
  · rw [hb]
    exact Outcome.failsIn_ok _

/-- A table that can be bound is joined, or is not for other reasons than names. -/
lemma knowsNames_joinSteps {stray : Prop} {t : TableRef} {on : Option Node} {table : Table}
    (htable : s.catalog.table t.name = .ok table) (hs : s.bind t.binding table = .ok s')
    (hold : ∀ old new, joinColumns on t.binding = .ok (old, new) →
      stray ∨ ∃ b, s.binding (old.names.headD "") = .ok b) :
    (joinSteps s t on).KnowsNames stray := by
  refine failsIn_joinSteps ?_ (fun table' h => ?_) fun old new h =>
    knowsNames_binding (hold old new h)
  · rw [htable]
    exact Outcome.failsIn_ok _
  · obtain rfl : table' = table := Except.ok.inj (h.symm.trans htable)
    rw [hs]
    exact Outcome.failsIn_ok _

/-- A `FROM` clause that has been resolved fails over no name, unless a condition has a star. -/
theorem knowsNames_sourceSteps {stray : Prop} {n n' : Node}
    (hr : resolveSource c [] n = .ok (ts, n'))
    (hstray : ∀ m ∈ n'.conditions, m.hasStray = true → stray) :
    (sourceSteps (.initial c) n').KnowsNames stray := by
  induction n' using sourceSteps.induct generalizing n ts with
  | case1 t =>
    obtain ⟨rfl, table, htable, hadd⟩ := resolveSource_eq_table hr
    obtain ⟨s', hs', rfl⟩ := Scope.exists_bind (s := .initial c) hadd
    simp only [sourceSteps, tableSteps]
    rw [show (Scope.initial c).catalog.table t.name = .ok table from htable, Outcome.ok_bind, hs']
    exact Outcome.failsIn_ok _
  | case2 left' t on' ih =>
    obtain ⟨left, right, on, ts₁, rfl, hleft, hright, hon⟩ := resolveSource_eq_join hr
    obtain ⟨rfl, table, htable, hadd⟩ := resolveSource_eq_table hright
    simp only [Node.conditions, List.append_nil, List.forall_mem_append] at hstray
    rw [sourceSteps]
    refine (ih hleft hstray.1).bind ?_
    rintro ⟨s₁, before⟩ hbefore
    obtain ⟨rfl, hc, hnodup, -⟩ := sources_agree hleft ⟨before, hbefore⟩
    obtain ⟨s', hs', rfl⟩ := Scope.exists_bind hadd
    refine (knowsNames_joinSteps (hc ▸ htable) hs' fun old new h => ?_).bind fun _ _ =>
      Outcome.failsIn_ok _
    by_cases hstar : old.isStar
    · obtain ⟨a, -, hequates⟩ := joinColumns_eq_ok.1 h
      obtain ⟨m, rfl, -, hm⟩ := mem_references_of_equates hequates
      exact .inl (hstray.2 m (by simp) (hm hstar))
    · obtain ⟨b, _, hb, -⟩ := exists_joined hnodup hs' hon h (by simpa using hstar)
      exact .inr ⟨b, hb⟩
  | case3 | case4 | case5 =>
    unfold sourceSteps
    split
    · simp_all
    · simp_all
    all_goals exact Outcome.failsIn_fault rfl

end

/-! ### Names and places of select items -/

/-- What two lists find at one place. -/
inductive FoundAlike {α β : Type} (xs : List α) (ys : List β) : Option α → Option β → Prop
  | nothing : FoundAlike xs ys none none
  | place {x : α} {y : β} (k : Nat) (hx : xs[k]? = some x) (hy : ys[k]? = some y) :
      FoundAlike xs ys (some x) (some y)

lemma FoundAlike.eq_none {α β : Type} {xs : List α} {ys : List β} {y : Option β}
    (h : FoundAlike xs ys none y) : y = none := by
  cases h
  rfl

lemma FoundAlike.exists_place {α β : Type} {xs : List α} {ys : List β} {x : α} {y : Option β}
    (h : FoundAlike xs ys (some x) y) :
    ∃ (k : Nat) (y' : β), xs[k]? = some x ∧ ys[k]? = some y' ∧ y = some y' := by
  cases h with
  | place k hx hy => exact ⟨k, _, hx, hy, rfl⟩

/-- The last members with a property stand at one place, if the members have it alike. -/
lemma foundAlike_reverse {α β : Type} {R : α → β → Prop} {p : α → Bool} {p' : β → Bool}
    {xs : List α} {ys : List β} (h : List.Forall₂ R xs ys) (hp : ∀ x y, R x y → p x = p' y) :
    FoundAlike xs ys (xs.reverse.find? p) (ys.reverse.find? p') := by
  induction h with
  | nil => exact .nothing
  | @cons x y xs ys hxy _ ih =>
    simp only [List.reverse_cons, List.find?_append]
    revert ih
    generalize xs.reverse.find? p = found
    generalize ys.reverse.find? p' = found'
    rintro (_ | ⟨k, hx, hy⟩)
    · rw [Option.none_or, Option.none_or, List.find?_singleton, List.find?_singleton, hp x y hxy]
      split
      · exact .place 0 rfl rfl
      · exact .nothing
    · exact .place (k + 1) hx hy

lemma Node.alias?_of_asName? {n : Node} {name : Option String} (h : n.asName? = .ok name) :
    n.alias? = name := by
  unfold asName? at h
  unfold alias?
  split at h
  · split at h
    · next hc =>
      split at h
      · cases h
        simp [hc]
      · simp at h
    · next hc =>
      cases h
      split <;> simp_all
  · cases h
    split <;> simp_all

/-- The item of a name is the last that has been given it. -/
lemma lookup_namedItems {ns : List Node} {named : List (String × Node)}
    (h : namedItems ns = .ok named) (name : String) :
    named.lookup name = ns.reverse.find? (·.alias? = some name) := by
  induction ns generalizing named with
  | nil =>
    cases h
    rfl
  | cons n ns ih =>
    obtain ⟨a, ha, h⟩ := Outcome.bind_eq_ok.1 h
    obtain ⟨rest, hrest, h⟩ := Outcome.bind_eq_ok.1 h
    cases h
    rw [List.reverse_cons, List.find?_append, List.lookup_append, ih hrest,
      List.find?_singleton, Node.alias?_of_asName? ha]
    cases a with
    | none => simp
    | some a =>
      by_cases hname : name = a
      · simp [hname]
      · have hname' : (name == a) = false := by simpa using hname
        simp [List.lookup_cons, hname', Ne.symm hname]

lemma alias?_of_unnamed {n e : Node} {name : Option String} (h : unnamed n = .ok (e, name)) :
    n.alias? = name := by
  unfold unnamed at h
  unfold Node.alias?
  split at h
  · split at h
    · next hc =>
      split at h
      · cases h
        simp [hc]
      · simp at h
    · next hc =>
      cases h
      split <;> simp_all
  · cases h
    split <;> simp_all

lemma alias?_of_item {s : Scope} {used : List String} {n : Node} {i : Item}
    (h : item s used n = .ok i) : n.alias? = i.asName := by
  obtain ⟨e, o, hn, -, -⟩ := item_cases h
  exact alias?_of_unnamed hn

lemma alias?_call {c : Call} (hc : c.operator ≠ .rename) (ns : List Node) :
    (Node.call c ns).alias? = none := by
  unfold Node.alias?
  split <;> simp_all

lemma alias?_resolve {c : Catalog} {ts : Tables} {n n' : Node} (h : resolve c ts n = .ok n') :
    n.alias? = n'.alias? := by
  cases n with
  | identifier i =>
    obtain ⟨i', -, rfl⟩ := Outcome.map_eq_ok.1 h
    rfl
  | list ns =>
    obtain ⟨ns', -, rfl⟩ := Outcome.map_eq_ok.1 h
    rfl
  | call f ns =>
    obtain ⟨type, ns', rfl, hns⟩ := resolve_call h
    cases hns with
    | query hf => rw [alias?_call (by simp [hf]), alias?_call (by simp [hf])]
    | @named n n' rest hf =>
      obtain _ | ⟨m, rest⟩ := rest
      · rfl
      · cases m <;> rfl
    | each hquery hname => rw [alias?_call hname, alias?_call (by exact hname)]
  | _ =>
    cases h
    rfl

lemma Quantity.less_ofInt (m n : Int) : (ofInt m).less (ofInt n) = decide (m < n) := by
  simp [less, ofInt, order_finite, Int.compare_eq_lt]

lemma Quantity.equal_ofInt (m n : Int) : (ofInt m).equal (ofInt n) = decide (m = n) := by
  simp [equal, ofInt, order_finite]

lemma isPlace_int {n : Int} {count : Nat} :
    isPlace (.int n) count = true ↔ 1 ≤ n ∧ n ≤ count := by
  simp [isPlace, Value.quantity?, Scalar.quantity?, Quantity.less_ofInt]

/-- The places of an ordering are those of select items. -/
lemma place_of_isPlace {n : Int} {count : Nat} (h : isPlace (.int n) count = true) :
    ∃ k : Nat, n = k + 1 ∧ k < count := by
  have hn := isPlace_int.1 h
  exact ⟨(n - 1).toNat, by omega, by omega⟩

lemma findSome?_ite {α : Type} (is : List Nat) (k : Nat) (f : Nat → Option α) :
    (is.findSome? fun i => if k = i then f i else none) = if k ∈ is then f k else none := by
  induction is with
  | nil => rfl
  | cons i is ih =>
    by_cases hi : k = i
    · subst hi
      cases hf : f k <;> simp [ih, hf]
    · simp [hi, ih]

/-- The item at a place is the one that stands there. -/
lemma itemAt?_place (items : List Item) (k : Nat) :
    itemAt? items (.int (k + 1)) = items[k]? := by
  have hplace (i : Nat) : (Value.int (k + 1)).quantity?.any (·.equal (.ofInt (i + 1))) =
      decide (k = i) := by
    simp only [Value.quantity?, Scalar.quantity?, Option.any_some, Quantity.equal_ofInt,
      decide_eq_decide]
    omega
  simp only [itemAt?, hplace, decide_eq_true_eq, findSome?_ite, List.mem_range]
  split
  · rfl
  · next hk => exact (List.getElem?_eq_none (Nat.le_of_not_lt hk)).symm

lemma Literal.IsSpelled.int {l : Literal} (h : l.IsSpelled) (hl : l.type = .integer) :
    ∃ n, l.value = .int n := by
  induction h with
  | exact s =>
    unfold ofExact at hl ⊢
    split
    · next hpoint =>
      rw [if_pos hpoint] at hl
      cases hl
    · exact ⟨_, rfl⟩
  | @negate l h hnum ih =>
    obtain ⟨n, hn⟩ := ih hl
    exact ⟨-n, by rw [Literal.negate, hn]; rfl⟩
  | _ => cases hl

/-! ### Clauses -/

section

variable {c : Catalog} {ts : Tables} {s : Scope} {q q' : Select} {n n' : Node} {stray : Prop}

/-- What an entry of an ordering denotes in a resolved query and in its plan: a select item by its
name or by its place, or an expression like any other. -/
inductive SortsAlike (c : Catalog) (ts : Tables) (q : Select) (named : List (String × Node))
    (items : List Item) : Node → Node → Prop
  | name {i : Identifier} {n : Node} {x : Item} (k : Nat) (hi : i.isSimple = true)
      (hname : named.lookup i.simple = some n) (hn : q.items[k]? = some n)
      (hx : items[k]? = some x)
      (h : sortOperand items (.identifier { i with type := some n.type }) = .ok x.operand) :
      SortsAlike c ts q named items (.identifier i) (.identifier { i with type := some n.type })
  | place {l : Literal} {n : Node} {x : Item} (k : Nat) (hl : l.type = .integer)
      (hplace : l.value = .int (k + 1)) (hn : q.items[k]? = some n) (hx : items[k]? = some x)
      (h : sortOperand items (.literal l) = .ok x.operand) :
      SortsAlike c ts q named items (.literal l) (.literal l)
  | expression {n n' : Node} (hname : ∀ i, n = .identifier i → i.isSimple = true →
      named.lookup i.simple = none) (hplace : ∀ l, n = .literal l → l.type ≠ .integer)
      (hn : resolve c ts n = .ok n') (h : sortOperand items n' = Operand.ofNode n') :
      SortsAlike c ts q named items n n'

lemma foundAlike_items {items : List Item} (hitems : itemsFrom s [] q.items = .ok items)
    {named : List (String × Node)} (hnamed : namedItems q.items = .ok named) (name : String) :
    FoundAlike q.items items (named.lookup name)
      (items.reverse.find? (·.asName = some name)) := by
  rw [lookup_namedItems hnamed]
  refine foundAlike_reverse (forall₂_itemsFrom hitems) fun n i ⟨used, hi⟩ => ?_
  rw [alias?_of_item hi]

lemma isSpelled_of_isWritten (hq : q.IsWritten) {k : SortKey Node} (hk : k ∈ q.orderBy)
    (l : Literal) (hl : k.expression = .literal l) : l.IsSpelled := by
  have := (Select.isWritten_iff.1 hq).2.2.2.2.2 k hk
  rw [hl] at this
  cases this
  assumption

lemma sortOperand_name {items : List Item} {i : Identifier} (hi : i.isSimple = true) {x : Item}
    (hx : items.reverse.find? (·.asName = some i.simple) = some x) :
    sortOperand items (.identifier i) = .ok x.operand := by
  simp only [sortOperand, hi, if_true, hx]

lemma sortOperand_column {items : List Item} {i : Identifier} (h : i.isSimple = true →
    items.reverse.find? (·.asName = some i.simple) = none) :
    sortOperand items (.identifier i) = .ok (.column i) := by
  rw [sortOperand]
  by_cases hi : i.isSimple = true
  · simp only [hi, if_true, h hi]
  · simp only [hi, Bool.false_eq_true, if_false]

/-- A resolved column without a table is a star, and named as before. -/
lemma isSimple_of_resolves {i i' : Identifier} (h : ts.Resolves i i') (hi : i'.isSimple = true) :
    i.isSimple = true ∧ i'.simple = i.simple := by
  rcases Tables.identifier_cases h with ⟨-, rfl⟩ | ⟨name, col, -, rfl⟩
  · exact ⟨hi, rfl⟩
  · simp [Identifier.isSimple] at hi

/-- An entry of an ordering is taken alike once it has been resolved. -/
lemma sortsAlike_of_resolves {items : List Item} (hitems : itemsFrom s [] q.items = .ok items)
    {named : List (String × Node)} (hnamed : namedItems q.items = .ok named)
    (hspelled : ∀ l, n = .literal l → l.IsSpelled)
    (h : KeyResolves c ts named q.items.length n n') : SortsAlike c ts q named items n n' := by
  have hlength := (forall₂_itemsFrom hitems).length_eq
  cases h with
  | @name i n hi hn =>
    have hfound := foundAlike_items hitems hnamed i.simple
    rw [hn] at hfound
    obtain ⟨k, x, hn', hx', hx⟩ := hfound.exists_place
    exact .name k hi hn hn' hx' (sortOperand_name (by exact hi) hx)
  | @literal l h =>
    by_cases hl : l.type = .integer
    · obtain ⟨n, hn⟩ := (hspelled l rfl).int hl
      obtain ⟨k, rfl, hk⟩ := place_of_isPlace (hn ▸ h hl)
      refine .place k hl hn (List.getElem?_eq_getElem hk)
        (List.getElem?_eq_getElem (hlength ▸ hk)) ?_
      simp only [sortOperand, hl, if_true, hn, itemAt?_place,
        List.getElem?_eq_getElem (hlength ▸ hk)]
    · refine .expression nofun (fun l' hl' => by cases hl'; exact hl) rfl ?_
      simp only [sortOperand, hl, if_false]
      rfl
  | expression hname hliteral h =>
    refine .expression hname (fun l hl => absurd hl (hliteral l)) h ?_
    cases n with
    | identifier i =>
      obtain ⟨i', hi', rfl⟩ := Outcome.map_eq_ok.1 h
      refine sortOperand_column fun hsimple => ?_
      obtain ⟨hi, hsame⟩ := isSimple_of_resolves hi' hsimple
      have hfound := foundAlike_items hitems hnamed i.simple
      rw [hname i rfl hi, ← hsame] at hfound
      exact hfound.eq_none
    | literal l => exact absurd rfl (hliteral l)
    | list ns =>
      obtain ⟨ns', -, rfl⟩ := Outcome.map_eq_ok.1 h
      rfl
    | call f ns =>
      obtain ⟨type, ns', rfl, -⟩ := resolve_call h
      rfl
    | _ =>
      cases h
      rfl

/-- The names of select items stay. -/
lemma aliases_expand (h : q.ResolvesTo c ts q') : (q.expand ts).aliases = q'.aliases := by
  have hitems := forall₂_resolveItems h.items
  unfold Select.aliases Select.expand
  dsimp only
  revert hitems
  generalize q.items.flatMap ts.expand = ns
  generalize q'.items = ns'
  intro hitems
  induction hitems with
  | nil => rfl
  | cons hn _ ih => rw [List.filterMap_cons, List.filterMap_cons, alias?_resolve hn, ih]

lemma mem_aliases {named : List (String × Node)} (h : namedItems q.items = .ok named)
    (name : String) : name ∈ q.aliases ↔ named.lookup name ≠ none := by
  simp [lookup_namedItems h, Select.aliases]

lemma keyReferences_name {aliases : List String} {i : Identifier} (hi : i.isSimple = true)
    (hmem : i.simple ∈ aliases) : (Node.identifier i).keyReferences aliases = [] :=
  if_pos ⟨hi, hmem⟩

lemma keyReferences_column {aliases : List String} {i : Identifier}
    (h : i.isSimple = true → i.simple ∉ aliases) :
    (Node.identifier i).keyReferences aliases = [i] :=
  if_neg fun ⟨hi, hmem⟩ => h hi hmem

/-- An entry of an ordering refers to the same columns once it has been resolved. -/
lemma keyReferences_resolve {named : List (String × Node)} {count : Nat} {aliases : List String}
    (haliases : ∀ name, name ∈ aliases ↔ named.lookup name ≠ none)
    (h : KeyResolves c ts named count n n') :
    List.Forall₂ ts.Resolves (n.keyReferences aliases) (n'.keyReferences aliases) := by
  cases h with
  | @name i n hi hn =>
    have hmem : i.simple ∈ aliases := (haliases _).2 (by simp [hn])
    have hname' : (Node.identifier { i with type := some n.type }).keyReferences aliases = [] :=
      keyReferences_name hi hmem
    rw [keyReferences_name hi hmem, hname']
    exact .nil
  | literal => exact .nil
  | expression hname hliteral h =>
    cases n with
    | identifier i =>
      obtain ⟨i', hi', rfl⟩ := Outcome.map_eq_ok.1 h
      have hfree (hi : i.isSimple = true) : i.simple ∉ aliases := by
        rw [haliases, hname i rfl hi]
        simp
      have hfree' (hi : i'.isSimple = true) : i'.simple ∉ aliases := by
        obtain ⟨hi, hsame⟩ := isSimple_of_resolves hi' hi
        exact hsame ▸ hfree hi
      rw [keyReferences_column hfree, keyReferences_column hfree']
      exact .cons hi' .nil
    | literal l => exact absurd rfl (hliteral l)
    | list ns =>
      obtain ⟨ns', -, rfl⟩ := Outcome.map_eq_ok.1 h
      exact references_resolve h
    | call f ns =>
      obtain ⟨type, ns', rfl, -⟩ := resolve_call h
      exact references_resolve h
    | _ =>
      cases h
      exact .nil

/-- The columns of a query are resolved one by one, once its stars have been expanded. -/
lemma select_references (h : q.ResolvesTo c ts q') :
    List.Forall₂ ts.Resolves (q.expand ts).references q'.references := by
  obtain ⟨named, hnamed, horder⟩ := h.orderBy
  refine List.rel_append (references_of_forall₂ (List.rel_append (List.rel_append (List.rel_append
    (forall₂_resolveItems h.items) (forall₂_resolveOption h.filter))
    (forall₂_resolveEach h.groupBy)) (forall₂_resolveOption h.having))) ?_
  rw [aliases_expand h]
  exact List.rel_flatMap (forall₂_resolveKeys horder) fun k k' =>
    keyReferences_resolve (mem_aliases hnamed)

/-- Every column of an expression that has been resolved is known, except for a stray star. -/
lemma known_of_resolves (hs : s.labels.Nodup) (h : resolve c s.tables n = .ok n')
    (hstray : n'.hasStray = true → stray) : n'.Known s (.naming stray) := by
  refine ⟨fun m _ => Outcome.knowsNames_textOf m, fun {o} ho i hi => ?_⟩
  obtain ⟨hmem, hstar⟩ := hi.mem_references ho
  by_cases hi : i.isStar = true
  · exact .of_stray i (hstray (hstar hi))
  · obtain ⟨j, -, hj⟩ := exists_left_of_forall₂ (references_resolve h) i hmem
    obtain ⟨b, col, -, -, howner⟩ :=
      Scope.sameColumn_of_resolves hs hj (by simpa using hi)
    exact .of_owner howner

lemma knownItem_of_resolves (hs : s.labels.Nodup) (h : resolve c s.tables n = .ok n')
    (hstray : n'.hasStray = true → stray) : n'.KnownItem s (.naming stray) := by
  refine ⟨Outcome.knowsNames_unnamed n', fun {e name} he => ?_⟩
  rcases unnamed_cases he with rfl | ⟨f, i, hf, rfl⟩
  · exact known_of_resolves hs h hstray
  · cases n with
    | call g ns =>
      obtain ⟨type, ns', hcall, hns⟩ := resolve_call h
      cases hcall
      cases hns with
      | named hname he =>
        exact known_of_resolves hs he fun he => hstray (Node.hasStray_call (by simp [hname])
          (by simp) (by simp [hname, Operator.isAggregate]) he)
      | each _ hname => exact absurd hf hname
      | query hquery => simp_all
    | identifier =>
      obtain ⟨_, -, h⟩ := Outcome.map_eq_ok.1 h
      cases h
    | list =>
      obtain ⟨_, -, h⟩ := Outcome.map_eq_ok.1 h
      cases h
    | _ => cases h

/-- What an entry of an ordering denotes is known if the columns of the items are. -/
lemma known_of_sortsAlike (hs : s.labels.Nodup) {named : List (String × Node)} {items : List Item}
    (hitems : ∀ i ∈ items, i.operand.Known s (.naming stray)) (h : SortsAlike c s.tables q named items n n')
    (hstray : n'.hasStray = true → stray) :
    (sortOperand items n').KnowsNames stray ∧
      ∀ o, sortOperand items n' = .ok o → o.Known s (.naming stray) := by
  have hfound {n' : Node} {k : Nat} {x : Item} (hx : items[k]? = some x)
      (h : sortOperand items n' = .ok x.operand) :
      (sortOperand items n').KnowsNames stray ∧
        ∀ o, sortOperand items n' = .ok o → o.Known s (.naming stray) := by
    rw [h]
    refine ⟨Outcome.failsIn_ok _, fun o ho => ?_⟩
    cases ho
    exact hitems x (List.mem_of_getElem? hx)
  cases h with
  | name k _ _ _ hx h => exact hfound hx h
  | place k _ _ _ hx h => exact hfound hx h
  | expression _ _ hn h =>
    rw [h]
    have hknown := known_of_resolves hs hn hstray
    exact ⟨Operand.failsIn_ofNode hknown.spells, fun o ho => hknown.operand ho⟩

/-- Whatever a resolved query names is known to the scope of its tables. -/
lemma select_known (hs : s.labels.Nodup) (h : q.ResolvesTo c s.tables q') (hq : q.IsWritten) :
    q'.Known s (.naming (q'.hasStray = true)) := by
  have hstray {n : Node} (hn : n ∈ q'.expressions) (hn' : n.hasStray = true) :
      q'.hasStray = true := List.any_eq_true.2 ⟨n, hn, hn'⟩
  have hitems : ∀ n' ∈ q'.items, n'.KnownItem s (.naming (q'.hasStray = true)) := by
    intro n' hn'
    obtain ⟨n, -, hn⟩ := exists_left_of_forall₂ (forall₂_resolveItems h.items) n' hn'
    exact knownItem_of_resolves hs hn (hstray (by simp [Select.expressions, hn']))
  refine ⟨fun n' hn' => ?_, hitems, fun n' hn' => ?_, fun n' hn' => ?_, fun items hi k hk => ?_⟩
  · obtain ⟨n, -, hn⟩ := exists_of_resolveOption h.filter hn'
    exact known_of_resolves hs hn (hstray (by simp [Select.expressions, Option.mem_def.1 hn']))
  · obtain ⟨n, -, hn⟩ := exists_left_of_forall₂ (forall₂_resolveEach h.groupBy) n' hn'
    exact known_of_resolves hs hn (hstray (by simp [Select.expressions, hn']))
  · obtain ⟨n, -, hn⟩ := exists_of_resolveOption h.having hn'
    exact known_of_resolves hs hn (hstray (by simp [Select.expressions, Option.mem_def.1 hn']))
  · obtain ⟨named, hnamed, horder⟩ := h.orderBy
    obtain ⟨k₀, hk₀, hkey⟩ := exists_left_of_forall₂ (forall₂_resolveKeys horder) k hk
    exact known_of_sortsAlike hs (known_itemsFrom hitems hi)
      (sortsAlike_of_resolves hi hnamed (isSpelled_of_isWritten hq hk₀) hkey)
      (hstray (List.mem_append_right _ (List.mem_map_of_mem hk)))

end

/-! ### Queries -/

/-- A query and its resolved form agree on names: whatever the resolved query names, its plan finds,
and finds as resolving has found it. -/
structure NamesAgree (c : Catalog) (q q' : Select) : Prop where
  /-- Planning fails over no name, except over a stray star. -/
  faults : ∀ (source : Option String) (maxRows : Option Int) (f : Fault),
    plan c source maxRows q' = .error (.fault f) →
      f.kind ≠ .unknownTable ∧ f.kind ≠ .ambiguousIdentifier ∧
        (f.kind = .unknownIdentifier → q'.hasStray = true)
  /-- The tables are the same, and the conditions of joins are read alike. -/
  tables : ∀ (n' : Node) (s : Scope) (v : Steps), q'.source = some n' →
    sourceSteps (.initial c) n' = .ok (s, v) →
      ∃ n, q.source = some n ∧ resolveSource c [] n = .ok (s.tables, n') ∧ SourcesAgree n n' s
  /-- Every column is the same wherever these tables are bound: in a row, in a group, and in the
  rows of a group. -/
  columns : ∀ (n' : Node) (s s' : Scope) (v : Steps), q'.source = some n' →
    sourceSteps (.initial c) n' = .ok (s, v) → s'.bindings = s.bindings →
      List.Forall₂ (s'.SameColumn s.tables) (q.expand s.tables).references q'.references
  /-- Every entry of the ordering denotes the same. -/
  sorting : ∀ (n' : Node) (s : Scope) (v : Steps) (items : List Item), q'.source = some n' →
    sourceSteps (.initial c) n' = .ok (s, v) → itemsFrom s [] q'.items = .ok items →
      ∃ named, namedItems q'.items = .ok named ∧ List.Forall₂ (fun k k' =>
        SortsAlike c s.tables q' named items k.expression k'.expression) q.orderBy q'.orderBy

/-- **Names mean the same when a query is resolved and when it is planned.** -/
theorem namesAgree_of_resolve {c : Catalog} {text : String} {q q' : Select}
    (h : Parser.parse text = .ok q) (hq : q.resolve c = .ok q') : NamesAgree c q q' := by
  have hwritten := Parser.isWritten_of_parse h
  obtain ⟨ts, hts⟩ := resolveSelect_eq_ok hq
  have hsource {n' : Node} (hn' : q'.source = some n') :
      ∃ n, q.source = some n ∧ resolveSource c [] n = .ok (ts, n') := by
    rcases hts.source with ⟨-, h, -⟩ | ⟨n, n'', hn, h, hr⟩
    · simp [h] at hn'
    · obtain rfl : n'' = n' := by simpa [h] using hn'
      exact ⟨n, hn, hr⟩
  refine ⟨fun source maxRows f hf => ?_, fun n' s v hn' hs => ?_, fun n' s s' v hn' hs hs' => ?_,
    fun n' s v items hn' hs hitems => ?_⟩
  · have hplan : (plan c source maxRows q').KnowsNames (q'.hasStray = true) := by
      refine failsIn_plan (fun n' hn' => ?_) fun n' row v hn' hrow => ?_
      · obtain ⟨n, -, hr⟩ := hsource hn'
        refine knowsNames_sourceSteps hr fun m hm hstray => List.any_eq_true.2 ⟨m, ?_, hstray⟩
        simp [Select.expressions, hn', hm]
      · obtain ⟨n, -, hr⟩ := hsource hn'
        obtain ⟨rfl, -, hnodup, -⟩ := sources_agree hr ⟨v, hrow⟩
        exact select_known hnodup hts hwritten
    have := hplan _ hf f rfl
    cases hkind : f.kind <;> simp_all [FaultKind.isNaming]
  · obtain ⟨n, hn, hr⟩ := hsource hn'
    obtain ⟨rfl, -, -, hagree⟩ := sources_agree hr ⟨v, hs⟩
    exact ⟨n, hn, hr, hagree⟩
  · obtain ⟨n, -, hr⟩ := hsource hn'
    obtain ⟨rfl, -, hnodup, -⟩ := sources_agree hr ⟨v, hs⟩
    have htables : s'.tables = s.tables := by rw [Scope.tables, hs', Scope.tables]
    have hnodup' : s'.labels.Nodup := by rwa [Scope.labels, hs']
    rw [← htables] at hts ⊢
    exact (select_references hts).imp fun i i' => Scope.sameColumn_of_resolves hnodup'
  · obtain ⟨n, -, hr⟩ := hsource hn'
    obtain ⟨rfl, -, -, -⟩ := sources_agree hr ⟨v, hs⟩
    obtain ⟨named, hnamed, horder⟩ := hts.orderBy
    have hspelled : ∀ k ∈ q.orderBy, ∀ l, k.expression = .literal l → l.IsSpelled :=
      fun k hk => isSpelled_of_isWritten hwritten hk
    refine ⟨named, hnamed, ?_⟩
    refine ((List.forall₂_and_left _ _).2 ⟨hspelled, forall₂_resolveKeys horder⟩).imp ?_
    rintro k k' ⟨hk, hkey⟩
    exact sortsAlike_of_resolves hitems hnamed hk hkey

/-- A join with its columns the wrong way round and in other cases, an item under a name, and an
ordering by that name, by a place and by a column. -/
def People.sorted : String :=
  "SELECT p.name AS who, q.* FROM person p JOIN person q ON q.AGE = p.age " ++
    "ORDER BY who, 2 DESC, p.Age"

theorem People.finds_columns : ∃ q q', Parser.parse People.sorted = .ok q ∧
    q.resolve catalog = .ok q' ∧ NamesAgree catalog q q' := by
  obtain ⟨p, hp⟩ := Converter.exists_of_isOk
    (show ((⟨catalog, none, none⟩ : Converter).convert sorted).isOk by decide +kernel)
  obtain ⟨q, q', hq, hq', -⟩ := Converter.convert_eq_ok hp
  exact ⟨q, q', hq, hq', namesAgree_of_resolve hq hq'⟩

end GraphSelect
