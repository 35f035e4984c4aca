import GraphSelect.Proofs.SameNames

/-!
Resolving a query that has been resolved.

What has been resolved is read in another way the second time: a column that was bare is qualified,
a star has become the columns it stands for, and an entry of an ordering is found among select items
that have been resolved themselves. All the same nothing is left to be done, since the tables of a
`FROM` clause have different names, so that a qualified column finds its owner again, and since a
column that is spelled as in the catalog is no star.
-/

namespace GraphSelect

/-! ### Columns -/

namespace Tables

/-- Tables that are told apart by their names, and columns that are told apart from stars. -/
structure AreClear (ts : Tables) : Prop where
  nodup : (ts.map (·.1)).Nodup
  columns : ∀ p ∈ ts, ∀ col ∈ p.2.columns, col.name ≠ "*"

variable {ts : Tables} {name : String} {t : Table} {col : Column} {i i' : Identifier}

lemma areClear_nil : AreClear [] := ⟨.nil, nofun⟩

/-- Tables stay clear when one is added. -/
lemma AreClear.add {ts' : Tables} (hts : ts.AreClear) (h : ts.add name t = .ok ts')
    (ht : ∀ col ∈ t.columns, col.name ≠ "*") : ts'.AreClear := by
  obtain ⟨hfree, rfl⟩ := add_eq_ok h
  refine ⟨?_, fun p hp => ?_⟩
  · rw [List.map_append, List.nodup_append]
    refine ⟨hts.nodup, List.nodup_singleton name, fun _ hold _ hnew heq => ?_⟩
    obtain ⟨p, hp, rfl⟩ := List.mem_map.1 hold
    exact bne_iff_ne.1 (List.lookup_eq_none_iff.1 hfree p hp) (List.mem_singleton.1 hnew ▸ heq).symm
  · rcases List.mem_append.1 hp with hp | hp
    · exact hts.columns p hp
    · obtain rfl := List.mem_singleton.1 hp
      exact ht

lemma AreClear.lookup_of_mem (hts : ts.AreClear) (h : (name, t) ∈ ts) :
    ts.lookup name = some t := by
  obtain ⟨before, after, rfl⟩ := List.append_of_mem h
  refine List.lookup_eq_some_iff.2 ⟨before, after, rfl, fun p hp => ?_⟩
  have hnodup := hts.nodup
  simp only [List.map_append, List.map_cons, List.nodup_append] at hnodup
  simpa using (hnodup.2.2 p.1 (List.mem_map_of_mem hp) name List.mem_cons_self).symm

/-- A column that has an owner is not named like a star. -/
lemma AreClear.name_ne (hts : ts.AreClear) (h : ts.owner i = .ok (name, col)) : col.name ≠ "*" := by
  obtain ⟨t, ht, hcol⟩ := owner_cases h
  exact hts.columns _ ht col (List.mem_of_find?_eq_some hcol)

lemma AreClear.isStar_identifier (hts : ts.AreClear) (h : ts.identifier i = .ok i') :
    i'.isStar = i.isStar := by
  unfold identifier at h
  split at h
  · cases h
    rfl
  · next hstar =>
    obtain ⟨⟨name, col⟩, howner, rfl⟩ := Outcome.map_eq_ok.1 h
    simpa [Identifier.isStar, Identifier.simple, hts.name_ne howner] using hstar

/-- A column that has been resolved is found again by its names. -/
lemma AreClear.identifier_again (hts : ts.AreClear) (h : ts.identifier i = .ok i') :
    ts.identifier i' = .ok i' := by
  have hstar := hts.isStar_identifier h
  rcases identifier_cases h with ⟨hi, rfl⟩ | ⟨name, col, howner, rfl⟩
  · rw [identifier, if_pos (hstar.trans hi)]
  · obtain ⟨t, ht, hcol⟩ := owner_cases howner
    have hname := hts.name_ne howner
    simp [identifier, Identifier.isStar, Identifier.simple, hname, owner, hts.lookup_of_mem ht,
      Table.column?_name hcol]

/-- No star is left among the columns that stars stand for. -/
lemma AreClear.isStar_expand {n m : Node} (hts : ts.AreClear) (h : m ∈ ts.expand n) :
    m.isStar = false := by
  have hcolumns {p : String × Table} (hp : p ∈ ts) {i : Identifier} (hi : i ∈ columnsOf p.1 p.2) :
      i.isStar = false := by
    obtain ⟨col, hcol, rfl⟩ := List.mem_map.1 hi
    simpa [Identifier.isStar, Identifier.simple] using hts.columns p hp col hcol
  unfold expand at h
  split at h
  · next i =>
    split at h
    · split at h
      · next columns hfound =>
        obtain ⟨j, hj, rfl⟩ := List.mem_map.1 h
        obtain ⟨p, hp, hj⟩ := mem_columns hfound hj
        exact hcolumns hp hj
      · simp at h
    · next hi =>
      obtain rfl := List.mem_singleton.1 h
      simpa [Node.isStar] using hi
  · next hi =>
    obtain rfl := List.mem_singleton.1 h
    unfold Node.isStar
    split
    · exact absurd rfl (hi _)
    · rfl

end Tables

/-! ### Expressions -/

section

variable {c : Catalog} {ts : Tables} {ns ns' : List Node}

/-- An operator over expressions has its operands resolved, and its type from theirs. -/
lemma resolve_call_eq {f : Call} (hquery : f.operator ≠ .scalarQuery)
    (hname : f.operator ≠ .rename) (ns : List Node) :
    resolve c ts (.call f ns) = (resolveEach c ts ns).map fun ns =>
      .call { f with type := some (f.operator.resultType (ns.map Node.type)) } ns := by
  unfold resolve
  split
  case h_1 hf | h_2 hf | h_3 hf => exact absurd hf hquery
  case h_4 hf | h_5 hf => exact absurd hf hname
  case h_6 => rfl

lemma resolveEach_again (h : resolveEach c ts ns = .ok ns')
    (hns : ∀ n ∈ ns, ∀ n', resolve c ts n = .ok n' → resolve c ts n' = .ok n') :
    resolveEach c ts ns' = .ok ns' := by
  have hrel := forall₂_resolveEach h
  clear h
  induction hrel with
  | nil => rfl
  | cons hn _ ih =>
    obtain ⟨hfirst, hrest⟩ := List.forall_mem_cons.1 hns
    simp [resolveEach, hfirst _ hn, ih hrest]

lemma resolve_call_again {f : Call} {n' : Node} (hquery : f.operator ≠ .scalarQuery)
    (hname : f.operator ≠ .rename) (h : resolve c ts (.call f ns) = .ok n')
    (hns : ∀ n ∈ ns, ∀ n', resolve c ts n = .ok n' → resolve c ts n' = .ok n') :
    resolve c ts n' = .ok n' := by
  rw [resolve_call_eq hquery hname] at h
  obtain ⟨ns', hns', rfl⟩ := Outcome.map_eq_ok.1 h
  rw [resolve_call_eq (by exact hquery) (by exact hname), resolveEach_again hns' hns, Outcome.map_ok]

lemma resolveOption_again {n n' : Option Node} (h : resolveOption c ts n = .ok n')
    (hn : ∀ m ∈ n, ∀ m', resolve c ts m = .ok m' → resolve c ts m' = .ok m') :
    resolveOption c ts n' = .ok n' := by
  cases n with
  | none =>
    cases h
    rfl
  | some m =>
    obtain ⟨m', hm, rfl⟩ := Outcome.map_eq_ok.1 h
    rw [resolveOption, hn m rfl m' hm, Outcome.map_ok]

/-- Resolving makes neither a star nor an end of one. -/
lemma isStar_resolve {n n' : Node} (hts : ts.AreClear) (h : resolve c ts n = .ok n') :
    n'.isStar = n.isStar := by
  cases n with
  | identifier i =>
    obtain ⟨i', hi, rfl⟩ := Outcome.map_eq_ok.1 h
    exact hts.isStar_identifier hi
  | list ns =>
    obtain ⟨ns', -, rfl⟩ := Outcome.map_eq_ok.1 h
    rfl
  | call f ns =>
    obtain ⟨_, _, rfl, -⟩ := resolve_call h
    rfl
  | _ =>
    cases h
    rfl

/-! ### Items and orderings -/

/-- An item that is no star and stays as it is. -/
def IsSettled (c : Catalog) (ts : Tables) (n : Node) : Prop :=
  n.isStar = false ∧ resolve c ts n = .ok n

lemma isSettled_of_resolveItems (hts : ts.AreClear) (h : resolveItems c ts ns = .ok ns')
    (hns : ∀ n ∈ ns, ∀ n', resolve c ts n = .ok n' → resolve c ts n' = .ok n') :
    ∀ n' ∈ ns', IsSettled c ts n' := by
  intro n' hn'
  obtain ⟨m, hm, hr⟩ := exists_left_of_forall₂ (forall₂_resolveItems h) n' hn'
  obtain ⟨n, hn, hm⟩ := List.mem_flatMap.1 hm
  refine ⟨(isStar_resolve hts hr).trans (hts.isStar_expand hm), ?_⟩
  rcases Tables.mem_expand hm with rfl | ⟨i, rfl, -⟩
  · exact hns m hn n' hr
  · obtain ⟨i', hi, rfl⟩ := Outcome.map_eq_ok.1 hr
    exact resolve_identifier (hts.identifier_again hi)

lemma checkStars_of_isSettled (h : ∀ n ∈ ns, IsSettled c ts n) : checkStars ts ns = .ok () := by
  induction ns with
  | nil => rfl
  | cons n ns ih =>
    obtain ⟨⟨hstar, -⟩, hns⟩ := List.forall_mem_cons.1 h
    cases n with
    | identifier i => exact Outcome.bind_eq_ok.2 ⟨(), if_neg (Bool.eq_false_iff.1 hstar), ih hns⟩
    | _ => exact ih hns

lemma resolveItems_of_isSettled (h : ∀ n ∈ ns, IsSettled c ts n) :
    resolveItems c ts ns = .ok ns := by
  induction ns with
  | nil => rfl
  | cons n ns ih =>
    obtain ⟨⟨hstar, hn⟩, hns⟩ := List.forall_mem_cons.1 h
    cases n with
    | identifier i =>
      have hi : i.isStar = false := hstar
      obtain ⟨_, hi', heq⟩ := Outcome.map_eq_ok.1 hn
      cases heq
      simp [resolveItems, hi, hi', ih hns]
    | _ => simp [resolveItems, hn, ih hns]

/-- Only an identifier resolves to one. -/
lemma resolve_eq_identifier {n : Node} {i' : Identifier}
    (h : resolve c ts n = .ok (.identifier i')) :
    ∃ i, n = .identifier i ∧ ts.identifier i = .ok i' := by
  cases n with
  | identifier i =>
    obtain ⟨_, hi, heq⟩ := Outcome.map_eq_ok.1 h
    cases heq
    exact ⟨i, rfl, hi⟩
  | list =>
    obtain ⟨_, -, heq⟩ := Outcome.map_eq_ok.1 h
    cases heq
  | call =>
    obtain ⟨_, _, heq, -⟩ := resolve_call h
    cases heq
  | _ => cases h

/-- Only a literal resolves to one. -/
lemma resolve_eq_literal {n : Node} {l : Literal} (h : resolve c ts n = .ok (.literal l)) :
    n = .literal l := by
  cases n with
  | literal =>
    cases h
    rfl
  | identifier | list =>
    obtain ⟨_, -, heq⟩ := Outcome.map_eq_ok.1 h
    cases heq
  | call =>
    obtain ⟨_, _, heq, -⟩ := resolve_call h
    cases heq
  | _ => cases h

variable {named : List (String × Node)} {count : Nat}

/-- An entry of an ordering that has been resolved is read in the same way again: a name is still
one, and what was none has not become one. -/
lemma KeyResolves.again {n n' : Node} (h : KeyResolves c ts named count n n')
    (hn : resolve c ts n = .ok n' → resolve c ts n' = .ok n') :
    KeyResolves c ts named count n' n' := by
  cases h with
  | name hi hitem => exact .name hi hitem
  | literal h => exact .literal h
  | expression hname hliteral h =>
    refine .expression ?_ ?_ (hn h)
    · rintro j rfl hsimple
      obtain ⟨i, rfl, hi⟩ := resolve_eq_identifier h
      rcases Tables.identifier_cases hi with ⟨-, rfl⟩ | ⟨_, _, -, rfl⟩
      · exact hname i rfl hsimple
      · simp [Identifier.isSimple] at hsimple
    · rintro l rfl
      exact hliteral l (resolve_eq_literal h)

lemma resolveKeys_cons {keys keys' : List (SortKey Node)} {n n' : Node} (descending : Bool)
    (h : KeyResolves c ts named count n n')
    (hkeys : resolveKeys c ts named count keys = .ok keys') :
    resolveKeys c ts named count (⟨n, descending⟩ :: keys) = .ok (⟨n', descending⟩ :: keys') := by
  cases h with
  | name hi hitem => simp [resolveKeys, hi, hitem, hkeys]
  | literal hplace =>
    rw [resolveKeys, if_neg (fun h => by simp [hplace h.1] at h), hkeys, Outcome.ok_bind,
      Outcome.pure_eq]
  | expression hname hliteral hn =>
    cases n with
    | identifier i =>
      obtain ⟨i', hi, rfl⟩ := Outcome.map_eq_ok.1 hn
      rw [resolveKeys]
      split
      · next hitem =>
        split at hitem
        · next hsimple => simp [hname i rfl hsimple] at hitem
        · simp at hitem
      · simp [hi, hkeys]
    | literal l => exact absurd rfl (hliteral l)
    | _ => simp [resolveKeys, hn, hkeys]

lemma resolveKeys_of_again {keys : List (SortKey Node)}
    (h : ∀ k ∈ keys, KeyResolves c ts named count k.expression k.expression) :
    resolveKeys c ts named count keys = .ok keys := by
  induction keys with
  | nil => rfl
  | cons k keys ih =>
    obtain ⟨hk, hkeys⟩ := List.forall_mem_cons.1 h
    exact resolveKeys_cons k.descending hk (ih hkeys)

end

/-! ### Queries -/

/-- A tree that has been resolved in its place stays as it is when it is resolved again. -/
def Category.Settles (c : Catalog) : Category → Node → Prop
  | .expression, n | .item, n => ∀ ts : Tables, ts.AreClear →
    ∀ n', resolve c ts n = .ok n' → resolve c ts n' = .ok n'
  | .tables, n => ∀ ts : Tables, ts.AreClear → ∀ ts' n', resolveSource c ts n = .ok (ts', n') →
    ts'.AreClear ∧ resolveSource c ts n' = .ok (ts', n')
  | .query, n => ∀ q, n = .select q → ∀ q', resolveSelect c q = .ok q' → resolveSelect c q' = .ok q'

section

variable {c : Catalog}

lemma settles_table (hc : ∀ t ∈ c.tables, ∀ col ∈ t.columns, col.name ≠ "*") (t : TableRef) :
    Category.Settles c .tables (.table t) := by
  intro ts hts ts' n' h
  obtain ⟨rfl, table, htable, hadd⟩ := resolveSource_table h
  exact ⟨hts.add hadd (hc table (Catalog.mem_of_table htable)), h⟩

/-- A tree that some text denotes is settled once it has been resolved. -/
theorem settles_of_isWritten (hc : ∀ t ∈ c.tables, ∀ col ∈ t.columns, col.name ≠ "*")
    {k : Category} {n : Node} (h : n.IsWritten k) : k.Settles c n := by
  induction h with
  | column =>
    intro ts hts n' hn
    obtain ⟨i', hi, rfl⟩ := Outcome.map_eq_ok.1 hn
    exact resolve_identifier (hts.identifier_again hi)
  | literal =>
    intro ts _ n' hn
    cases hn
    rfl
  | infixed hf _ _ ihx ihy =>
    obtain ⟨hquery, hname, -⟩ := Operator.ne_of_affix (.inl hf)
    exact fun ts hts n' hn =>
      resolve_call_again hquery hname hn (by simpa using ⟨ihx ts hts, ihy ts hts⟩)
  | prefixed hf _ ih =>
    obtain ⟨hquery, hname, -⟩ := Operator.ne_of_affix (.inr (.inl hf))
    exact fun ts hts n' hn => resolve_call_again hquery hname hn (by simpa using ih ts hts)
  | test hf _ ih =>
    obtain ⟨hquery, hname, -⟩ := Operator.ne_of_affix (.inr (.inr hf))
    exact fun ts hts n' hn => resolve_call_again hquery hname hn (by simpa using ih ts hts)
  | function name hf _ ih =>
    obtain ⟨hquery, hname, -⟩ := hf ▸ Operator.ofFunctionName_ne name
    exact fun ts hts n' hn => resolve_call_again hquery hname hn fun m hm => ih m hm ts hts
  | cast hf _ t ih =>
    intro ts hts n' hn
    have htype : ∀ n', resolve c ts (.typeSpec t) = .ok n' → resolve c ts n' = .ok n' := by
      rintro _ ⟨⟩
      rfl
    exact resolve_call_again (by simp [hf]) (by simp [hf]) hn (by simpa using ⟨ih ts hts, htype⟩)
  | @within f x xs hf _ _ ihx ih =>
    intro ts hts n' hn
    have hlist : ∀ n', resolve c ts (.list xs) = .ok n' → resolve c ts n' = .ok n' := by
      intro n' hn'
      obtain ⟨xs', hxs, rfl⟩ := Outcome.map_eq_ok.1 hn'
      rw [resolve, resolveEach_again hxs fun m hm => ih m hm ts hts, Outcome.map_ok]
    exact resolve_call_again (by simp [hf]) (by simp [hf]) hn (by simpa using ⟨ihx ts hts, hlist⟩)
  | scalarQuery hf _ ih =>
    intro ts hts n' hn
    simp only [resolve, hf] at hn
    obtain ⟨q', hq, hn⟩ := Outcome.bind_eq_ok.1 hn
    cases hn
    simp [resolve, ih _ rfl q' hq]
  | item _ ih => exact ih
  | named hf _ name ih =>
    intro ts hts n' hn
    simp only [resolve, hf] at hn
    obtain ⟨x', hx, hn⟩ := Outcome.bind_eq_ok.1 hn
    cases hn
    simp [resolve, ih ts hts x' hx]
  | table t => exact settles_table hc t
  | join _ kind t ih =>
    intro ts hts ts' n' hn
    obtain ⟨left', right', condition', ts₁, rfl, hleft, hright, hcondition⟩ := resolveSource_join hn
    obtain ⟨hts₁, hleft⟩ := ih ts hts ts₁ left' hleft
    obtain ⟨hts', hright⟩ := settles_table hc t ts₁ hts₁ ts' right' hright
    cases hcondition
    exact ⟨hts', by simp [resolveSource, hleft, hright, resolveOption]⟩
  | joinOn _ kind t _ ihx ihy =>
    intro ts hts ts' n' hn
    obtain ⟨left', right', condition', ts₁, rfl, hleft, hright, hcondition⟩ := resolveSource_join hn
    obtain ⟨hts₁, hleft⟩ := ihx ts hts ts₁ left' hleft
    obtain ⟨hts', hright⟩ := settles_table hc t ts₁ hts₁ ts' right' hright
    have hagain := resolveOption_again hcondition (by simpa using ihy ts' hts')
    exact ⟨hts', by simp [resolveSource, hleft, hright, hagain]⟩
  | @query q _ _ _ _ _ _ ihItems ihSource ihFilter ihGroupBy ihHaving ihOrderBy =>
    rintro _ ⟨⟩ q' hq
    obtain ⟨ts, hr⟩ := resolveSelect_eq_ok hq
    obtain ⟨hts, hsource⟩ : ts.AreClear ∧ resolveTables c q'.source = .ok (ts, q'.source) := by
      rcases hr.source with ⟨-, hnone, rfl⟩ | ⟨n, n', hn, hn', hsource⟩
      · exact ⟨Tables.areClear_nil, by rw [hnone]; rfl⟩
      · obtain ⟨hts, hagain⟩ := ihSource n hn [] Tables.areClear_nil ts n' hsource
        exact ⟨hts, by simp [hn', resolveTables, hagain]⟩
    have hitems := isSettled_of_resolveItems hts hr.items fun n hn => ihItems n hn ts hts
    have hfilter := resolveOption_again hr.filter fun n hn => ihFilter n hn ts hts
    have hgroupBy := resolveEach_again hr.groupBy fun n hn => ihGroupBy n hn ts hts
    have hhaving := resolveOption_again hr.having fun n hn => ihHaving n hn ts hts
    obtain ⟨named, hnamed, horderBy⟩ := hr.orderBy
    have horder : ∀ k ∈ q'.orderBy,
        KeyResolves c ts named q'.items.length k.expression k.expression := by
      intro k' hk'
      obtain ⟨k, hk, hkey⟩ := exists_left_of_forall₂ (forall₂_resolveKeys horderBy) k' hk'
      exact hkey.again (ihOrderBy k hk ts hts _)
    rw [resolveSelect_eq]
    simp [hsource, checkStars_of_isSettled fun n hn => hitems n hn,
      resolveItems_of_isSettled hitems, hfilter, hgroupBy, hhaving, hnamed,
      resolveKeys_of_again horder]

end

/-- **A resolved query resolves to itself**: stars and names, types, joins, orderings and sub-queries
stay as they are. -/
theorem resolve_of_resolved {c : Catalog} {text : String} {q q' : Select}
    (hc : ∀ t ∈ c.tables, ∀ col ∈ t.columns, col.name ≠ "*") (hq : Parser.parse text = .ok q)
    (hq' : q.resolve c = .ok q') : q'.resolve c = .ok q' :=
  settles_of_isWritten hc (Parser.isWritten_of_parse hq) q rfl q' hq'

namespace People

/-- A star over two tables, a name that is ordered by, a place and a sub-query. -/
def neighbours : String :=
  "SELECT *, p.AGE + 1 AS next, (SELECT COUNT(*) FROM person) FROM person AS p " ++
    "JOIN person AS q ON p.Name = q.Name WHERE q.age > 5 ORDER BY next, 1, q.NAME"

theorem resolves_neighbours_again : ∃ q q', Parser.parse neighbours = .ok q ∧
    q.resolve catalog = .ok q' ∧ q.items.length = 3 ∧ q'.items.length = 6 ∧
    q'.resolve catalog = .ok q' := by
  obtain ⟨q, q', hq, hq', hlength⟩ := exists_of_resolvesWith
    (show resolvesWith neighbours catalog (fun q q' => q.items.length = 3 && q'.items.length = 6)
      by decide +kernel)
  obtain ⟨hbefore, hafter⟩ : q.items.length = 3 ∧ q'.items.length = 6 := by simpa using hlength
  exact ⟨q, q', hq, hq', hbefore, hafter, resolve_of_resolved (by decide) hq hq'⟩

end People

end GraphSelect
