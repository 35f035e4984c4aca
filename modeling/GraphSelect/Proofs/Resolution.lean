import GraphSelect.Proofs.Clauses
import GraphSelect.Proofs.Grammar

/-!
What resolving makes of a query.

A query that resolves is resolved part by part: its tables first, its stars replaced by the columns
they stand for, then each expression on its own. So an expression refers to as many columns as
before, each one resolved by the tables it sees. An entry of an ordering is resolved in this way
too, unless it is the name of a select item or a constant. What some text denotes still is, once it
has been resolved.
-/

namespace GraphSelect

/-! ### Columns of tables -/

lemma Table.column?_name {t : Table} {name : String} {col : Column}
    (h : t.column? name = some col) : t.column? col.name = some col := by
  have hname : Text.lower col.name = Text.lower name := by
    simpa [sameName] using List.find?_some h
  simpa only [column?, sameName, hname] using h

lemma Catalog.mem_of_table {c : Catalog} {name : String} {t : Table} (h : c.table name = .ok t) :
    t ∈ c.tables := by
  unfold table at h
  split at h
  · next ht =>
    cases h
    exact List.mem_of_find?_eq_some ht
  · simp at h

namespace Tables

variable {ts : Tables} {i i' : Identifier} {name : String} {col : Column}

/-- A column that has an owner is one of the owner's. -/
lemma owner_cases (h : ts.owner i = .ok (name, col)) :
    ∃ t, (name, t) ∈ ts ∧ t.column? i.simple = some col := by
  unfold owner at h
  split at h
  · next column hnames =>
    split at h
    · next found hfound =>
      cases h
      have hmem : (name, col) ∈ ts.owners column := by simp [hfound]
      obtain ⟨⟨name', t⟩, ht, hcol⟩ := List.mem_filterMap.1 hmem
      simp only [Option.map_eq_some_iff, Prod.mk.injEq] at hcol
      obtain ⟨_, hcol, rfl, rfl⟩ := hcol
      exact ⟨t, ht, by simpa [Identifier.simple, hnames] using hcol⟩
    · simp at h
    · simp at h
  · next name' column hnames =>
    split at h
    · next found hfound =>
      cases h
      obtain ⟨t, ht, hcol⟩ := Option.bind_eq_some_iff.1 hfound
      exact ⟨t, mem_of_lookup ht, by simpa [Identifier.simple, hnames] using hcol⟩
    · simp at h
  · simp at h

/-- A star stays, and any other column is spelled as its owner has it. -/
lemma identifier_cases (h : ts.identifier i = .ok i') :
    (i.isStar = true ∧ i' = { i with type := some .any }) ∨
      ∃ name col, ts.owner i = .ok (name, col) ∧ i' = ⟨[name, col.name], some col.type⟩ := by
  unfold identifier at h
  split at h
  · next hstar =>
    cases h
    exact .inl ⟨hstar, rfl⟩
  · obtain ⟨⟨name, col⟩, howner, rfl⟩ := Outcome.map_eq_ok.1 h
    exact .inr ⟨name, col, howner, rfl⟩

lemma add_eq_ok {t : Table} {ts' : Tables} (h : ts.add name t = .ok ts') :
    ts.lookup name = none ∧ ts' = ts ++ [(name, t)] := by
  unfold add at h
  split at h
  · simp at h
  · next hfree =>
    cases h
    exact ⟨by rwa [Bool.not_eq_true, Option.isSome_eq_false_iff, Option.isNone_iff_eq_none] at hfree,
      rfl⟩

end Tables

/-! ### Expressions -/

variable {c : Catalog} {ts : Tables}

lemma resolve_identifier {i i' : Identifier} (h : ts.identifier i = .ok i') :
    resolve c ts (.identifier i) = .ok (.identifier i') := by
  rw [resolve, h, Except.map]

/-- How the operands of a call are resolved. -/
inductive OperandsResolve (c : Catalog) (ts : Tables) (f : Call) : List Node → List Node → Prop
  | query {q q' : Select} {rest : List Node} (hf : f.operator = .scalarQuery)
      (h : resolveSelect c q = .ok q') :
      OperandsResolve c ts f (.select q :: rest) (.select q' :: rest)
  | named {n n' : Node} {rest : List Node} (hf : f.operator = .rename)
      (h : resolve c ts n = .ok n') : OperandsResolve c ts f (n :: rest) (n' :: rest)
  | each {ns ns' : List Node} (hquery : f.operator ≠ .scalarQuery) (hname : f.operator ≠ .rename)
      (h : resolveEach c ts ns = .ok ns') : OperandsResolve c ts f ns ns'

lemma resolve_call {f : Call} {ns : List Node} {n' : Node}
    (h : resolve c ts (.call f ns) = .ok n') :
    ∃ type ns', n' = .call { f with type := type } ns' ∧ OperandsResolve c ts f ns ns' := by
  unfold resolve at h
  split at h
  · next hf =>
    obtain ⟨q', hq, h⟩ := Outcome.bind_eq_ok.1 h
    cases h
    exact ⟨_, _, rfl, .query hf hq⟩
  · simp at h
  · simp at h
  · next hf =>
    obtain ⟨n', hn, h⟩ := Outcome.bind_eq_ok.1 h
    cases h
    exact ⟨_, _, rfl, .named hf hn⟩
  · simp at h
  · next ns _ _ _ hother hempty hname hnone =>
    obtain ⟨ns', hns, h⟩ := Outcome.bind_eq_ok.1 h
    cases h
    refine ⟨_, _, rfl, .each (fun hf => ?_) (fun hf => ?_) hns⟩
    · cases ns with
      | nil => exact hempty hf rfl
      | cons n ns => exact hother n ns hf rfl
    · cases ns with
      | nil => exact hnone hf rfl
      | cons n ns => exact hname n ns hf rfl

lemma resolveEach_eq_mapM (ns : List Node) : resolveEach c ts ns = ns.mapM (resolve c ts) := by
  induction ns with
  | nil => simp [resolveEach]
  | cons n ns ih =>
    rw [resolveEach, List.mapM_cons, ih]

lemma forall₂_resolveEach {ns ns' : List Node} (h : resolveEach c ts ns = .ok ns') :
    List.Forall₂ (fun n n' => resolve c ts n = .ok n') ns ns' :=
  Outcome.forall₂_of_mapM (resolveEach_eq_mapM ns ▸ h)

/-- An operator over expressions has as many operands as before, each one resolved. -/
lemma resolve_call_each {f : Call} {ns : List Node} {n' : Node} (hquery : f.operator ≠ .scalarQuery)
    (hname : f.operator ≠ .rename) (h : resolve c ts (.call f ns) = .ok n') :
    ∃ type ns', n' = .call { f with type := type } ns' ∧
      List.Forall₂ (fun n n' => resolve c ts n = .ok n') ns ns' := by
  obtain ⟨type, ns', rfl, hns⟩ := resolve_call h
  cases hns with
  | query hf => exact absurd hf hquery
  | named hf => exact absurd hf hname
  | each _ _ h => exact ⟨type, ns', rfl, forall₂_resolveEach h⟩

lemma forall₂_resolveOption {n n' : Option Node} (h : resolveOption c ts n = .ok n') :
    List.Forall₂ (fun n n' => resolve c ts n = .ok n') n.toList n'.toList := by
  cases n with
  | none =>
    cases h
    exact .nil
  | some n =>
    obtain ⟨n', hn, rfl⟩ := Outcome.map_eq_ok.1 h
    exact .cons hn .nil

lemma exists_of_resolveOption {n n' : Option Node} (h : resolveOption c ts n = .ok n') {m' : Node}
    (hm' : m' ∈ n') : ∃ m ∈ n, resolve c ts m = .ok m' := by
  simpa using exists_left_of_forall₂ (forall₂_resolveOption h) m' (by simpa using hm')

namespace Node

mutual
/-- The columns that an expression refers to, apart from those of its sub-queries. -/
def references : Node → List Identifier
  | .identifier i => [i]
  | .list nodes => referencesEach nodes
  | .call f operands =>
    match f.operator, operands with
    | .scalarQuery, _ => []
    | .rename, n :: _ => references n
    | _, operands => referencesEach operands
  | _ => []

def referencesEach : List Node → List Identifier
  | [] => []
  | n :: ns => references n ++ referencesEach ns
end

lemma referencesEach_eq_flatMap (ns : List Node) : referencesEach ns = ns.flatMap references := by
  induction ns with
  | nil => rfl
  | cons n ns ih => simp [referencesEach, ih]

lemma references_call {f : Call} (hquery : f.operator ≠ .scalarQuery)
    (hname : f.operator ≠ .rename) (ns : List Node) :
    (Node.call f ns).references = ns.flatMap references := by
  rw [← referencesEach_eq_flatMap]
  unfold references
  split
  · next h => exact absurd h hquery
  · next h => exact absurd h hname
  · rfl

end Node

/-- An identifier as the tables resolve it. -/
def Tables.Resolves (ts : Tables) (i i' : Identifier) : Prop := ts.identifier i = .ok i'

mutual
/-- The columns of an expression are resolved one by one. -/
theorem references_resolve {n n' : Node} (h : resolve c ts n = .ok n') :
    List.Forall₂ ts.Resolves n.references n'.references := by
  cases n with
  | identifier i =>
    obtain ⟨i', hi, rfl⟩ := Outcome.map_eq_ok.1 h
    exact .cons hi .nil
  | list ns =>
    obtain ⟨ns', hns, rfl⟩ := Outcome.map_eq_ok.1 h
    exact referencesEach_resolve hns
  | call f ns =>
    obtain ⟨type, ns', rfl, hns⟩ := resolve_call h
    cases hns with
    | query hf => simp [Node.references, hf]
    | named hf hn => simpa [Node.references, hf] using references_resolve hn
    | each hquery hname hns =>
      rw [Node.references_call hquery hname, Node.references_call (by exact hquery) (by exact hname),
        ← Node.referencesEach_eq_flatMap, ← Node.referencesEach_eq_flatMap]
      exact referencesEach_resolve hns
  | _ =>
    cases h
    exact .nil

theorem referencesEach_resolve {ns ns' : List Node} (h : resolveEach c ts ns = .ok ns') :
    List.Forall₂ ts.Resolves (Node.referencesEach ns) (Node.referencesEach ns') := by
  cases ns with
  | nil =>
    cases h
    exact .nil
  | cons n ns =>
    rw [resolveEach] at h
    obtain ⟨n', hn, h⟩ := Outcome.bind_eq_ok.1 h
    obtain ⟨ns', hns, h⟩ := Outcome.bind_eq_ok.1 h
    cases h
    exact List.rel_append (references_resolve hn) (referencesEach_resolve hns)
end

lemma references_of_forall₂ {ns ns' : List Node}
    (h : List.Forall₂ (fun n n' => resolve c ts n = .ok n') ns ns') :
    List.Forall₂ ts.Resolves (ns.flatMap Node.references) (ns'.flatMap Node.references) :=
  List.rel_flatMap h fun _ _ => references_resolve

/-! ### Items and orderings -/

/-- The items that a select item stands for: a star stands for the columns of its tables. -/
def Tables.expand (ts : Tables) : Node → List Node
  | .identifier i =>
    if i.isStar then
      match ts.columns i with
      | .ok columns => columns.map .identifier
      | .error _ => []
    else [.identifier i]
  | n => [n]

/-- The items that stars have been expanded to are resolved one by one. -/
lemma forall₂_resolveItems {ns ns' : List Node} (h : resolveItems c ts ns = .ok ns') :
    List.Forall₂ (fun n n' => resolve c ts n = .ok n') (ns.flatMap ts.expand) ns' := by
  induction ns generalizing ns' with
  | nil =>
    cases h
    exact .nil
  | cons n ns ih =>
    rw [List.flatMap_cons]
    cases n with
    | identifier i =>
      rw [resolveItems] at h
      split at h
      · next hstar =>
        obtain ⟨columns, hcolumns, h⟩ := Outcome.bind_eq_ok.1 h
        obtain ⟨found, hfound, h⟩ := Outcome.bind_eq_ok.1 h
        obtain ⟨rest, hrest, h⟩ := Outcome.bind_eq_ok.1 h
        cases h
        refine List.rel_append ?_ (ih hrest)
        simp only [Tables.expand, hstar, hcolumns, if_true, List.forall₂_map_left_iff,
          List.forall₂_map_right_iff]
        exact (Outcome.forall₂_of_mapM hfound).imp fun i i' => resolve_identifier
      · next hstar =>
        obtain ⟨found, hfound, h⟩ := Outcome.bind_eq_ok.1 h
        obtain ⟨rest, hrest, h⟩ := Outcome.bind_eq_ok.1 h
        cases h
        obtain ⟨i', hi, rfl⟩ := Outcome.map_eq_ok.1 hfound
        simp only [Tables.expand, hstar]
        exact .cons (resolve_identifier hi) (ih hrest)
    | _ =>
      obtain ⟨n', hn, h⟩ := Outcome.bind_eq_ok.1 h
      obtain ⟨rest, hrest, h⟩ := Outcome.bind_eq_ok.1 h
      cases h
      exact .cons hn (ih hrest)

/-- How an expression of an ordering is resolved. -/
inductive KeyResolves (c : Catalog) (ts : Tables) (named : List (String × Node)) (count : Nat) :
    Node → Node → Prop
  | name {i : Identifier} {n : Node} (hi : i.isSimple = true)
      (hn : named.lookup i.simple = some n) :
      KeyResolves c ts named count (.identifier i) (.identifier { i with type := some n.type })
  | literal {l : Literal} (h : l.type = .integer → isPlace l.value count = true) :
      KeyResolves c ts named count (.literal l) (.literal l)
  | expression {n n' : Node} (hname : ∀ i, n = .identifier i → i.isSimple = true →
      named.lookup i.simple = none) (hliteral : ∀ l, n ≠ .literal l)
      (h : resolve c ts n = .ok n') : KeyResolves c ts named count n n'

/-- The first entry of an ordering is resolved before the others. -/
lemma resolveKeys_cases {named : List (String × Node)} {count : Nat} {n : Node} {descending : Bool}
    {keys keys' : List (SortKey Node)}
    (h : resolveKeys c ts named count (⟨n, descending⟩ :: keys) = .ok keys') :
    ∃ n' rest, keys' = ⟨n', descending⟩ :: rest ∧ KeyResolves c ts named count n n' ∧
      resolveKeys c ts named count keys = .ok rest := by
  cases n with
  | identifier i =>
    rw [resolveKeys] at h
    split at h
    · next n hn =>
      obtain ⟨found, hfound, h⟩ := Outcome.bind_eq_ok.1 h
      obtain ⟨rest, hrest, h⟩ := Outcome.bind_eq_ok.1 h
      cases hfound
      cases h
      split at hn
      · next hi => exact ⟨_, _, rfl, .name hi hn, hrest⟩
      · simp at hn
    · next hnone =>
      obtain ⟨found, hfound, h⟩ := Outcome.bind_eq_ok.1 h
      obtain ⟨rest, hrest, h⟩ := Outcome.bind_eq_ok.1 h
      cases h
      refine ⟨_, _, rfl, .expression (fun j hj hi => ?_) nofun (resolve_identifier hfound), hrest⟩
      cases hj
      simpa [hi] using hnone
  | literal l =>
    rw [resolveKeys] at h
    split at h
    · simp at h
    · next hplace =>
      obtain ⟨rest, hrest, h⟩ := Outcome.bind_eq_ok.1 h
      cases h
      exact ⟨_, _, rfl, .literal fun hl => by simpa [hl] using hplace, hrest⟩
  | _ =>
    obtain ⟨n', hn, h⟩ := Outcome.bind_eq_ok.1 h
    obtain ⟨rest, hrest, h⟩ := Outcome.bind_eq_ok.1 h
    cases h
    exact ⟨_, _, rfl, .expression nofun nofun hn, hrest⟩

lemma forall₂_resolveKeys {named : List (String × Node)} {count : Nat}
    {keys keys' : List (SortKey Node)} (h : resolveKeys c ts named count keys = .ok keys') :
    List.Forall₂ (fun k k' => KeyResolves c ts named count k.expression k'.expression)
      keys keys' := by
  induction keys generalizing keys' with
  | nil =>
    cases h
    exact .nil
  | cons k keys ih =>
    obtain ⟨n', rest, rfl, hn, hrest⟩ := resolveKeys_cases h
    exact .cons hn (ih hrest)

/-! ### Selects -/

lemma resolveSource_table {ts' : Tables} {t : TableRef} {n' : Node}
    (h : resolveSource c ts (.table t) = .ok (ts', n')) :
    n' = .table t ∧ ∃ table, c.table t.name = .ok table ∧ ts.add t.binding table = .ok ts' := by
  rw [resolveSource] at h
  obtain ⟨table, htable, h⟩ := Outcome.bind_eq_ok.1 h
  obtain ⟨ts', hadd, h⟩ := Outcome.bind_eq_ok.1 h
  cases h
  exact ⟨rfl, table, htable, hadd⟩

lemma resolveSource_join {ts' : Tables} {left right n' : Node} {kind : JoinKind}
    {condition : Option Node}
    (h : resolveSource c ts (.join left kind right condition) = .ok (ts', n')) :
    ∃ left' right' condition' ts₁, n' = .join left' kind right' condition' ∧
      resolveSource c ts left = .ok (ts₁, left') ∧
      resolveSource c ts₁ right = .ok (ts', right') ∧
      resolveOption c ts' condition = .ok condition' := by
  rw [resolveSource] at h
  obtain ⟨⟨ts₁, left'⟩, hleft, h⟩ := Outcome.bind_eq_ok.1 h
  obtain ⟨⟨ts₂, right'⟩, hright, h⟩ := Outcome.bind_eq_ok.1 h
  obtain ⟨condition', hcondition, h⟩ := Outcome.bind_eq_ok.1 h
  cases h
  exact ⟨left', right', condition', ts₁, rfl, hleft, hright, hcondition⟩

/-- Only a table resolves to a table, and only a join to a join. -/
lemma resolveSource_eq_table {ts' : Tables} {n : Node} {t : TableRef}
    (h : resolveSource c ts n = .ok (ts', .table t)) :
    n = .table t ∧ ∃ table, c.table t.name = .ok table ∧ ts.add t.binding table = .ok ts' := by
  cases n with
  | table t' =>
    obtain ⟨ht, h⟩ := resolveSource_table h
    cases ht
    exact ⟨rfl, h⟩
  | join =>
    obtain ⟨_, _, _, _, hn, -⟩ := resolveSource_join h
    cases hn
  | _ => simp [resolveSource] at h

lemma resolveSource_eq_join {ts' : Tables} {n left' right' : Node} {kind : JoinKind}
    {condition' : Option Node}
    (h : resolveSource c ts n = .ok (ts', .join left' kind right' condition')) :
    ∃ left right condition ts₁, n = .join left kind right condition ∧
      resolveSource c ts left = .ok (ts₁, left') ∧
      resolveSource c ts₁ right = .ok (ts', right') ∧
      resolveOption c ts' condition = .ok condition' := by
  cases n with
  | table t' => cases (resolveSource_table h).1
  | join left kind right condition =>
    obtain ⟨_, _, _, ts₁, hn, h⟩ := resolveSource_join h
    cases hn
    exact ⟨left, right, condition, ts₁, rfl, h⟩
  | _ => simp [resolveSource] at h

/-- How a select is resolved, by the tables of its `FROM` clause. -/
structure Select.ResolvesTo (q : Select) (c : Catalog) (ts : Tables) (q' : Select) : Prop where
  source : (q.source = none ∧ q'.source = none ∧ ts = []) ∨
    ∃ n n', q.source = some n ∧ q'.source = some n' ∧ resolveSource c [] n = .ok (ts, n')
  items : resolveItems c ts q.items = .ok q'.items
  filter : resolveOption c ts q.filter = .ok q'.filter
  groupBy : resolveEach c ts q.groupBy = .ok q'.groupBy
  having : resolveOption c ts q.having = .ok q'.having
  orderBy : ∃ named, namedItems q'.items = .ok named ∧
    resolveKeys c ts named q'.items.length q.orderBy = .ok q'.orderBy

/-- The tables of a `FROM` clause, if there is one. -/
def resolveTables (c : Catalog) : Option Node → Outcome (Tables × Option Node)
  | none => .ok ([], none)
  | some n => (resolveSource c [] n).map fun (ts, n) => (ts, some n)

/-- The parts of a select are resolved one after the other. -/
lemma resolveSelect_eq (c : Catalog) (q : Select) :
    resolveSelect c q = (do
      let (ts, source) ← resolveTables c q.source
      checkStars ts q.items
      let items ← resolveItems c ts q.items
      let filter ← resolveOption c ts q.filter
      let groupBy ← resolveEach c ts q.groupBy
      let having ← resolveOption c ts q.having
      let named ← namedItems items
      let orderBy ← resolveKeys c ts named items.length q.orderBy
      return ⟨q.distinct, items, source, filter, groupBy, having, orderBy, q.limit, q.offset⟩) := by
  obtain ⟨distinct, items, source, filter, groupBy, having, orderBy, limit, offset⟩ := q
  cases source <;> rfl

/-- A select that resolves is resolved part by part, and its ordering last. -/
theorem resolveSelect_orderBy {q q' : Select} (h : resolveSelect c q = .ok q') :
    ∃ ts named, q.ResolvesTo c ts q' ∧ namedItems q'.items = .ok named ∧
      ∀ keys, resolveSelect c { q with orderBy := keys } =
        (resolveKeys c ts named q'.items.length keys).map fun keys => { q' with orderBy := keys } := by
  rw [resolveSelect_eq] at h
  obtain ⟨⟨ts, source⟩, hsource, h⟩ := Outcome.bind_eq_ok.1 h
  obtain ⟨_, hstars, h⟩ := Outcome.bind_eq_ok.1 h
  obtain ⟨items, hitems, h⟩ := Outcome.bind_eq_ok.1 h
  obtain ⟨filter, hfilter, h⟩ := Outcome.bind_eq_ok.1 h
  obtain ⟨groupBy, hgroupBy, h⟩ := Outcome.bind_eq_ok.1 h
  obtain ⟨having, hhaving, h⟩ := Outcome.bind_eq_ok.1 h
  obtain ⟨named, hnamed, h⟩ := Outcome.bind_eq_ok.1 h
  obtain ⟨orderBy, horderBy, h⟩ := Outcome.bind_eq_ok.1 h
  cases h
  refine ⟨ts, named, ⟨?_, hitems, hfilter, hgroupBy, hhaving, named, hnamed, horderBy⟩, hnamed,
    fun keys => ?_⟩
  · cases hq : q.source with
    | none =>
      rw [hq] at hsource
      cases hsource
      exact .inl ⟨rfl, rfl, rfl⟩
    | some n =>
      rw [hq] at hsource
      obtain ⟨⟨ts, n'⟩, hn, hsource⟩ := Outcome.map_eq_ok.1 hsource
      cases hsource
      exact .inr ⟨n, n', rfl, rfl, hn⟩
  · rw [resolveSelect_eq]
    simp only [hsource, hstars, hitems, hfilter, hgroupBy, hhaving, hnamed, Outcome.ok_bind]
    cases resolveKeys c ts named items.length keys <;> rfl

theorem resolveSelect_eq_ok {q q' : Select} (h : resolveSelect c q = .ok q') :
    ∃ ts, q.ResolvesTo c ts q' := by
  obtain ⟨ts, _, hts, -⟩ := resolveSelect_orderBy h
  exact ⟨ts, hts⟩

/-- A select has tables after it is resolved only if it had them before. -/
lemma Select.ResolvesTo.exists_source {q q' : Select} {n' : Node} (h : q.ResolvesTo c ts q')
    (hn' : q'.source = some n') :
    ∃ n, q.source = some n ∧ resolveSource c [] n = .ok (ts, n') := by
  rcases h.source with ⟨-, hnone, -⟩ | ⟨n, n'', hn, hn'', hr⟩
  · simp [hnone] at hn'
  · obtain rfl : n'' = n' := by simpa [hn''] using hn'
    exact ⟨n, hn, hr⟩

/-! ### Trees of texts -/

/-- How a tree is resolved in its place. -/
def Category.Resolves (c : Catalog) : Category → Node → Node → Prop
  | .expression, n, n' | .item, n, n' => ∃ ts, resolve c ts n = .ok n'
  | .tables, n, n' => ∃ ts ts', resolveSource c ts n = .ok (ts', n')
  | .query, n, n' => ∃ q q', n = .select q ∧ n' = .select q' ∧ resolveSelect c q = .ok q'

/-- The columns that a star stands for are those of its tables. -/
lemma Tables.mem_columns {star i : Identifier} {found : List Identifier}
    (h : ts.columns star = .ok found) (hi : i ∈ found) : ∃ p ∈ ts, i ∈ columnsOf p.1 p.2 := by
  unfold columns at h
  split at h
  · split at h
    · simp at h
    · cases h
      exact List.mem_flatMap.1 hi
  · dsimp only at h
    split at h
    · next t ht =>
      cases h
      exact ⟨_, mem_of_lookup ht, hi⟩
    · simp at h

lemma Tables.mem_expand {n m : Node} (h : m ∈ ts.expand n) :
    m = n ∨ ∃ i, m = .identifier i ∧ i.names.length = 2 := by
  unfold expand at h
  split at h
  · split at h
    · split at h
      · next found hfound =>
        obtain ⟨j, hj, rfl⟩ := List.mem_map.1 h
        obtain ⟨p, -, hj⟩ := mem_columns hfound hj
        obtain ⟨col, -, rfl⟩ := List.mem_map.1 hj
        exact .inr ⟨_, rfl, rfl⟩
      · simp at h
    · exact .inl (List.mem_singleton.1 h)
  · exact .inl (List.mem_singleton.1 h)

lemma isWritten_identifier {i i' : Identifier} (h : ts.identifier i = .ok i')
    (hi : i.names.length = 1 ∨ i.names.length = 2) :
    (Node.identifier i').IsWritten .expression := by
  rcases Tables.identifier_cases h with ⟨-, rfl⟩ | ⟨name, col, -, rfl⟩
  · exact .column hi
  · exact .column (.inr rfl)

lemma isWritten_key {named : List (String × Node)} {count : Nat} {n n' : Node}
    (h : KeyResolves c ts named count n n') (hn : n.IsWritten .expression)
    (hresolved : ∀ n', resolve c ts n = .ok n' → n'.IsWritten .expression) :
    n'.IsWritten .expression := by
  cases h with
  | name =>
    cases hn with
    | column h => exact .column h
  | literal => exact hn
  | expression _ _ h => exact hresolved n' h

/-- The items that others stand for are written if what those resolve to is. -/
lemma isWritten_items {ns ns' : List Node} (h : resolveItems c ts ns = .ok ns')
    (hns : ∀ n ∈ ns, ∀ n', resolve c ts n = .ok n' → n'.IsWritten .item) :
    ∀ n' ∈ ns', n'.IsWritten .item := by
  intro n' hn'
  obtain ⟨m, hm, hr⟩ := exists_left_of_forall₂ (forall₂_resolveItems h) n' hn'
  obtain ⟨n, hn, hm⟩ := List.mem_flatMap.1 hm
  rcases Tables.mem_expand hm with rfl | ⟨i, rfl, hi⟩
  · exact hns m hn n' hr
  · obtain ⟨i', hi', rfl⟩ := Outcome.map_eq_ok.1 hr
    exact .item (isWritten_identifier hi' (.inr hi))

/-- A tree that some text denotes stays one when it is resolved. -/
theorem isWritten_of_resolves {k : Category} {n n' : Node} (h : n.IsWritten k)
    (hn : k.Resolves c n n') : n'.IsWritten k := by
  induction h generalizing n' with
  | column h =>
    obtain ⟨ts, hn⟩ := hn
    obtain ⟨i', hi, rfl⟩ := Outcome.map_eq_ok.1 hn
    exact isWritten_identifier hi h
  | literal h =>
    obtain ⟨ts, hn⟩ := hn
    cases hn
    exact .literal h
  | infixed hc hx hy ihx ihy =>
    obtain ⟨ts, hn⟩ := hn
    obtain ⟨hquery, hname, -⟩ := Operator.ne_of_affix (.inl hc)
    obtain ⟨type, _, rfl, hns⟩ := resolve_call_each hquery hname hn
    obtain _ | ⟨hx', _ | ⟨hy', _ | _⟩⟩ := hns
    exact .infixed hc (ihx ⟨ts, hx'⟩) (ihy ⟨ts, hy'⟩)
  | prefixed hc hx ih =>
    obtain ⟨ts, hn⟩ := hn
    obtain ⟨hquery, hname, -⟩ := Operator.ne_of_affix (.inr (.inl hc))
    obtain ⟨type, _, rfl, hns⟩ := resolve_call_each hquery hname hn
    obtain _ | ⟨hx', _ | _⟩ := hns
    exact .prefixed hc (ih ⟨ts, hx'⟩)
  | test hc hx ih =>
    obtain ⟨ts, hn⟩ := hn
    obtain ⟨hquery, hname, -⟩ := Operator.ne_of_affix (.inr (.inr hc))
    obtain ⟨type, _, rfl, hns⟩ := resolve_call_each hquery hname hn
    obtain _ | ⟨hx', _ | _⟩ := hns
    exact .test hc (ih ⟨ts, hx'⟩)
  | function name hc hxs ih =>
    obtain ⟨ts, hn⟩ := hn
    obtain ⟨hquery, hname, -⟩ := hc ▸ Operator.ofFunctionName_ne name
    obtain ⟨type, ns', rfl, hns⟩ := resolve_call_each hquery hname hn
    refine .function name hc fun x' hx' => ?_
    obtain ⟨x, hx, hx'⟩ := exists_left_of_forall₂ hns x' hx'
    exact ih x hx ⟨ts, hx'⟩
  | cast hc hx t ih =>
    obtain ⟨ts, hn⟩ := hn
    obtain ⟨type, _, rfl, hns⟩ := resolve_call_each (by simp [hc]) (by simp [hc]) hn
    obtain _ | ⟨hx', _ | ⟨ht', _ | _⟩⟩ := hns
    cases ht'
    exact .cast (by exact hc) (ih ⟨ts, hx'⟩) t
  | within hc hx hxs ihx ih =>
    obtain ⟨ts, hn⟩ := hn
    obtain ⟨type, _, rfl, hns⟩ := resolve_call_each (by simp [hc]) (by simp [hc]) hn
    obtain _ | ⟨hx', _ | ⟨hlist, _ | _⟩⟩ := hns
    obtain ⟨xs', hxs', rfl⟩ := Outcome.map_eq_ok.1 hlist
    refine .within hc (ihx ⟨ts, hx'⟩) fun y' hy' => ?_
    obtain ⟨y, hy, hy'⟩ := exists_left_of_forall₂ (forall₂_resolveEach hxs') y' hy'
    exact ih y hy ⟨ts, hy'⟩
  | scalarQuery hc hq ih =>
    obtain ⟨ts, hn⟩ := hn
    obtain ⟨type, ns', rfl, hns⟩ := resolve_call hn
    cases hns with
    | query _ hq' => exact .scalarQuery hc (ih ⟨_, _, rfl, rfl, hq'⟩)
    | named hname => simp [hc] at hname
    | each hquery => exact absurd hc hquery
  | item hx ih => exact .item (ih hn)
  | named hc hx name ih =>
    obtain ⟨ts, hn⟩ := hn
    obtain ⟨type, ns', rfl, hns⟩ := resolve_call hn
    cases hns with
    | query hquery => simp [hc] at hquery
    | named _ hx' => exact .named (by exact hc) (ih ⟨ts, hx'⟩) name
    | each _ hname => exact absurd hc hname
  | table t =>
    obtain ⟨ts, ts', hn⟩ := hn
    obtain ⟨rfl, -⟩ := resolveSource_table hn
    exact .table t
  | join hx kind t ih =>
    obtain ⟨ts, ts', hn⟩ := hn
    obtain ⟨left, right, condition, ts₁, rfl, hleft, hright, hcondition⟩ := resolveSource_join hn
    obtain ⟨rfl, -⟩ := resolveSource_table hright
    cases hcondition
    exact .join (ih ⟨ts, ts₁, hleft⟩) kind t
  | joinOn hx kind t hy ihx ihy =>
    obtain ⟨ts, ts', hn⟩ := hn
    obtain ⟨left, right, condition, ts₁, rfl, hleft, hright, hcondition⟩ := resolveSource_join hn
    obtain ⟨rfl, -⟩ := resolveSource_table hright
    obtain ⟨y', hy', rfl⟩ := Outcome.map_eq_ok.1 hcondition
    exact .joinOn (ihx ⟨ts, ts₁, hleft⟩) kind t (ihy ⟨ts', hy'⟩)
  | @query q items source filter groupBy having orderBy ihItems ihSource ihFilter ihGroupBy ihHaving
      ihOrderBy =>
    obtain ⟨q, q', hq, rfl, hn⟩ := hn
    cases hq
    obtain ⟨ts, hts⟩ := resolveSelect_eq_ok hn
    refine Select.isWritten_iff.2 ⟨?_, fun n' hn' => ?_, fun n' hn' => ?_, fun n' hn' => ?_,
      fun n' hn' => ?_, fun k' hk' => ?_⟩
    · exact isWritten_items hts.items fun n hn n' hr => ihItems n hn ⟨ts, hr⟩
    · obtain ⟨n, hn, hr⟩ := hts.exists_source hn'
      exact ihSource n hn ⟨[], ts, hr⟩
    · obtain ⟨n, hn, hr⟩ := exists_of_resolveOption hts.filter hn'
      exact ihFilter n hn ⟨ts, hr⟩
    · obtain ⟨n, hn, hr⟩ := exists_left_of_forall₂ (forall₂_resolveEach hts.groupBy) n' hn'
      exact ihGroupBy n hn ⟨ts, hr⟩
    · obtain ⟨n, hn, hr⟩ := exists_of_resolveOption hts.having hn'
      exact ihHaving n hn ⟨ts, hr⟩
    · obtain ⟨named, -, horder⟩ := hts.orderBy
      obtain ⟨k, hk, hkey⟩ := exists_left_of_forall₂ (forall₂_resolveKeys horder) k' hk'
      exact isWritten_key hkey (orderBy k hk) fun n' hr => ihOrderBy k hk ⟨ts, hr⟩

lemma Select.IsWritten.resolve {q q' : Select} (h : q.IsWritten) (hq : q.resolve c = .ok q') :
    q'.IsWritten :=
  isWritten_of_resolves h ⟨q, q', rfl, rfl, hq⟩

/-- Whether a text denotes a query that resolves, and whether some test holds of the two. -/
def resolvesWith (text : String) (c : Catalog) (test : Select → Select → Bool) : Bool :=
  (Parser.parse text).toOption.any fun q => (q.resolve c).toOption.any (test q)

lemma exists_of_resolvesWith {text : String} {test : Select → Select → Bool}
    (h : resolvesWith text c test = true) :
    ∃ q q', Parser.parse text = .ok q ∧ q.resolve c = .ok q' ∧ test q q' = true := by
  cases hq : Parser.parse text with
  | error e => simp [resolvesWith, hq, Except.toOption] at h
  | ok q =>
    cases hq' : q.resolve c with
    | error e => simp [resolvesWith, hq, hq', Except.toOption] at h
    | ok q' => exact ⟨q, q', rfl, hq', by simpa [resolvesWith, hq, hq', Except.toOption] using h⟩

end GraphSelect
