import GraphSelect.Proofs.Resolved
import GraphSelect.Proofs.TreeTokens

/-!
A query inside another.

A sub-query is resolved on its own, with the tables that it names itself. So the query around it has
a result only if the sub-query has one, and if the query resolves with another sub-query in this
place, then it fails for no other reason than the sub-query does.
-/

namespace GraphSelect

/-! ### Outcomes that hang on a part -/

/-- Work that succeeds only if a part of it does, and fails as the part fails wherever it succeeds
with another part. -/
structure Outcome.HangsOn {α β : Type} (part : Outcome α) (x x' : Outcome β) : Prop where
  ok : ∀ b, x = .ok b → ∃ a, part = .ok a
  error : ∀ e b, part = .error e → x' = .ok b → x = .error e

namespace Outcome.HangsOn

variable {α β γ : Type} {part : Outcome α} {x x' : Outcome β}

lemma self (part x' : Outcome α) : part.HangsOn part x' :=
  ⟨fun a ha => ⟨a, ha⟩, fun _ _ he _ => he⟩

lemma bind (h : part.HangsOn x x') (f f' : β → Outcome γ) :
    part.HangsOn (x >>= f) (x' >>= f') where
  ok c hc := by
    obtain ⟨b, hb, -⟩ := Outcome.bind_eq_ok.1 hc
    exact h.ok b hb
  error e c he hc := by
    obtain ⟨b, hb, -⟩ := Outcome.bind_eq_ok.1 hc
    rw [h.error e b he hb]
    rfl

lemma map (h : part.HangsOn x x') (f f' : β → γ) : part.HangsOn (x.map f) (x'.map f') where
  ok c hc := by
    obtain ⟨b, hb, -⟩ := Outcome.map_eq_ok.1 hc
    exact h.ok b hb
  error e c he hc := by
    obtain ⟨b, hb, -⟩ := Outcome.map_eq_ok.1 hc
    rw [h.error e b he hb]
    rfl

/-- Work before the part is the same. -/
lemma after (x : Outcome β) {f f' : β → Outcome γ} (h : ∀ b, part.HangsOn (f b) (f' b)) :
    part.HangsOn (x >>= f) (x >>= f') where
  ok c hc := by
    obtain ⟨b, -, hb⟩ := Outcome.bind_eq_ok.1 hc
    exact (h b).ok c hb
  error e c he hc := by
    obtain ⟨b, hx, hb⟩ := Outcome.bind_eq_ok.1 hc
    rw [hx]
    exact (h b).error e c he hb

end Outcome.HangsOn

/-! ### Places of sub-queries -/

/-- Two trees that differ in one place only, where one has the query `s` and the other has `s'`. -/
inductive Node.Swaps (s s' : Select) : Category → Node → Node → Prop
  | here : Swaps s s' .query (.select s) (.select s')
  | scalarQuery {f : Call} {q q' : Select} (hf : f.operator = .scalarQuery)
      (h : Swaps s s' .query (.select q) (.select q')) :
      Swaps s s' .expression (.call f [.select q]) (.call f [.select q'])
  | operand {f : Call} {n n' : Node} (hquery : f.operator ≠ .scalarQuery)
      (hname : f.operator ≠ .rename) (before after : List Node)
      (h : Swaps s s' .expression n n') :
      Swaps s s' .expression (.call f (before ++ n :: after)) (.call f (before ++ n' :: after))
  | member {n n' : Node} (before after : List Node) (h : Swaps s s' .expression n n') :
      Swaps s s' .expression (.list (before ++ n :: after)) (.list (before ++ n' :: after))
  | unnamed {n n' : Node} (h : Swaps s s' .expression n n') : Swaps s s' .item n n'
  | named {f : Call} {n n' : Node} (hf : f.operator = .rename) (rest : List Node)
      (h : Swaps s s' .expression n n') :
      Swaps s s' .item (.call f (n :: rest)) (.call f (n' :: rest))
  | left {n n' : Node} (kind : JoinKind) (right : Node) (condition : Option Node)
      (h : Swaps s s' .tables n n') :
      Swaps s s' .tables (.join n kind right condition) (.join n' kind right condition)
  | condition {n n' : Node} (left : Node) (kind : JoinKind) (right : Node)
      (h : Swaps s s' .expression n n') :
      Swaps s s' .tables (.join left kind right (some n)) (.join left kind right (some n'))
  | item {n n' : Node} (q : Select) (before after : List Node) (h : Swaps s s' .item n n') :
      Swaps s s' .query (.select { q with items := before ++ n :: after })
        (.select { q with items := before ++ n' :: after })
  | source {n n' : Node} (q : Select) (h : Swaps s s' .tables n n') :
      Swaps s s' .query (.select { q with source := some n })
        (.select { q with source := some n' })
  | filter {n n' : Node} (q : Select) (h : Swaps s s' .expression n n') :
      Swaps s s' .query (.select { q with filter := some n })
        (.select { q with filter := some n' })
  | groupBy {n n' : Node} (q : Select) (before after : List Node)
      (h : Swaps s s' .expression n n') :
      Swaps s s' .query (.select { q with groupBy := before ++ n :: after })
        (.select { q with groupBy := before ++ n' :: after })
  | having {n n' : Node} (q : Select) (h : Swaps s s' .expression n n') :
      Swaps s s' .query (.select { q with having := some n })
        (.select { q with having := some n' })
  | orderBy {n n' : Node} (q : Select) (before after : List (SortKey Node)) (descending : Bool)
      (h : Swaps s s' .expression n n') :
      Swaps s s' .query (.select { q with orderBy := before ++ ⟨n, descending⟩ :: after })
        (.select { q with orderBy := before ++ ⟨n', descending⟩ :: after })

namespace Node

variable {s s' : Select} {k : Category} {n n' : Node}

/-- A sub-query is no part of a column or a constant. -/
lemma Swaps.ne (h : n.Swaps s s' k n') :
    (∀ i, n ≠ .identifier i ∧ n' ≠ .identifier i) ∧ ∀ l, n ≠ .literal l ∧ n' ≠ .literal l := by
  induction h with
  | unnamed _ ih => exact ih
  | _ => simp

lemma Swaps.exists_select (h : n.Swaps s s' .query n') : ∃ q', n' = .select q' := by
  cases h <;> exact ⟨_, rfl⟩

lemma Swaps.symm (h : n.Swaps s s' k n') : n'.Swaps s' s k n := by
  induction h with
  | here => exact .here
  | scalarQuery hf _ ih => exact .scalarQuery hf ih
  | operand hquery hname before after _ ih => exact .operand hquery hname before after ih
  | member before after _ ih => exact .member before after ih
  | unnamed _ ih => exact .unnamed ih
  | named hf rest _ ih => exact .named hf rest ih
  | left kind right condition _ ih => exact .left kind right condition ih
  | condition left kind right _ ih => exact .condition left kind right ih
  | item q before after _ ih => exact .item q before after ih
  | source q _ ih => exact .source q ih
  | filter q _ ih => exact .filter q ih
  | groupBy q before after _ ih => exact .groupBy q before after ih
  | having q _ ih => exact .having q ih
  | orderBy q before after descending _ ih => exact .orderBy q before after descending ih

/-- A query that stands in a node that is no query stands in one of its children. -/
lemma StandsIn.exists_child (h : (Node.select s).StandsIn n) (hn : ∀ q, n ≠ .select q) :
    ∃ m ∈ n.children, (Node.select s).StandsIn m := by
  cases h with
  | self => exact absurd rfl (hn s)
  | child hm h => exact ⟨_, hm, h⟩

/-- If a query stands in the tree, then it can be another one there. -/
def CanSwap (s s' : Select) (k : Category) (n : Node) : Prop :=
  (Node.select s).StandsIn n → ∃ n', n.Swaps s s' k n'

lemma not_standsIn_leaf (hn : ∀ q, n ≠ .select q) (hleaf : n.children = []) :
    ¬ (Node.select s).StandsIn n := by
  intro hs
  obtain ⟨m, hm, -⟩ := hs.exists_child hn
  simp [hleaf] at hm

section

variable {f : Call} {ns : List Node} {q : Select}

lemma exists_swaps_among (h : ∀ m ∈ ns, m.CanSwap s s' k)
    (hs : ∃ m ∈ ns, (Node.select s).StandsIn m) :
    ∃ before m m' after, ns = before ++ m :: after ∧ m.Swaps s s' k m' := by
  obtain ⟨m, hm, hs⟩ := hs
  obtain ⟨m', hm'⟩ := h m hm hs
  obtain ⟨before, after, hns⟩ := List.append_of_mem hm
  exact ⟨before, m, m', after, hns, hm'⟩

lemma canSwap_call (hf : f.operator ≠ .scalarQuery ∧ f.operator ≠ .rename)
    (h : ∀ m ∈ ns, m.CanSwap s s' .expression) : (Node.call f ns).CanSwap s s' .expression := by
  intro hs
  obtain ⟨before, m, m', after, rfl, hm⟩ := exists_swaps_among h (hs.exists_child (by simp))
  exact ⟨_, .operand hf.1 hf.2 before after hm⟩

lemma canSwap_affix
    (hf : f.operator.isInfix = true ∨ f.operator.isPrefix = true ∨ f.operator.isTest = true)
    (h : ∀ m ∈ ns, m.CanSwap s s' .expression) : (Node.call f ns).CanSwap s s' .expression := by
  obtain ⟨hquery, hname, -⟩ := Operator.ne_of_affix hf
  exact canSwap_call ⟨hquery, hname⟩ h

lemma canSwap_list (h : ∀ m ∈ ns, m.CanSwap s s' .expression) :
    (Node.list ns).CanSwap s s' .expression := by
  intro hs
  obtain ⟨before, m, m', after, rfl, hm⟩ := exists_swaps_among h (hs.exists_child (by simp))
  exact ⟨_, .member before after hm⟩

/-- A sub-query of a query stands in one of its clauses. -/
lemma canSwap_query (items : ∀ m ∈ q.items, m.CanSwap s s' .item)
    (source : ∀ m ∈ q.source, m.CanSwap s s' .tables)
    (filter : ∀ m ∈ q.filter, m.CanSwap s s' .expression)
    (groupBy : ∀ m ∈ q.groupBy, m.CanSwap s s' .expression)
    (having : ∀ m ∈ q.having, m.CanSwap s s' .expression)
    (orderBy : ∀ key ∈ q.orderBy, key.expression.CanSwap s s' .expression) :
    (Node.select q).CanSwap s s' .query := by
  intro hs
  cases hs with
  | self => exact ⟨_, .here⟩
  | child hm hs =>
    simp only [children, List.mem_append, Option.mem_toList, List.mem_map] at hm
    rcases hm with ((((hm | hm) | hm) | hm) | hm) | ⟨key, hkey, rfl⟩
    · obtain ⟨before, m, m', after, hitems, hm'⟩ := exists_swaps_among items ⟨_, hm, hs⟩
      have hswaps := Swaps.item q before after hm'
      rw [← hitems] at hswaps
      exact ⟨_, hswaps⟩
    · obtain ⟨m', hm'⟩ := source _ hm hs
      have hswaps := Swaps.source q hm'
      rw [← hm] at hswaps
      exact ⟨_, hswaps⟩
    · obtain ⟨m', hm'⟩ := filter _ hm hs
      have hswaps := Swaps.filter q hm'
      rw [← hm] at hswaps
      exact ⟨_, hswaps⟩
    · obtain ⟨before, m, m', after, hgroups, hm'⟩ := exists_swaps_among groupBy ⟨_, hm, hs⟩
      have hswaps := Swaps.groupBy q before after hm'
      rw [← hgroups] at hswaps
      exact ⟨_, hswaps⟩
    · obtain ⟨m', hm'⟩ := having _ hm hs
      have hswaps := Swaps.having q hm'
      rw [← hm] at hswaps
      exact ⟨_, hswaps⟩
    · obtain ⟨m', hm'⟩ := orderBy _ hkey hs
      obtain ⟨before, after, hkeys⟩ := List.append_of_mem hkey
      have hswaps := Swaps.orderBy q before after key.descending hm'
      rw [← hkeys] at hswaps
      exact ⟨_, hswaps⟩

end

/-- Every query that stands in a tree that some text denotes can be another one there. -/
lemma IsWritten.canSwap (h : n.IsWritten k) (s s' : Select) : n.CanSwap s s' k := by
  have htype (t : TypeSpec) : ¬ (Node.select s).StandsIn (.typeSpec t) :=
    not_standsIn_leaf (by simp) rfl
  have hname (i : Identifier) : ¬ (Node.select s).StandsIn (.identifier i) :=
    not_standsIn_leaf (by simp) rfl
  have htable (t : TableRef) : ¬ (Node.select s).StandsIn (.table t) :=
    not_standsIn_leaf (by simp) rfl
  induction h with
  | column => exact fun hs => absurd hs (hname _)
  | literal => exact fun hs => absurd hs (not_standsIn_leaf (by simp) rfl)
  | table t => exact fun hs => absurd hs (htable t)
  | infixed hc _ _ ihx ihy => exact canSwap_affix (.inl hc) (by simpa using ⟨ihx, ihy⟩)
  | prefixed hc _ ih => exact canSwap_affix (.inr (.inl hc)) (by simpa using ih)
  | test hc _ ih => exact canSwap_affix (.inr (.inr hc)) (by simpa using ih)
  | function name hc _ ih =>
    obtain ⟨hquery, hrename, -⟩ := Operator.ofFunctionName_ne name
    exact canSwap_call (hc ▸ ⟨hquery, hrename⟩) ih
  | cast hc _ t ih =>
    have ht : (Node.typeSpec t).CanSwap s s' .expression := fun hs => absurd hs (htype t)
    exact canSwap_call (by simp [hc]) (by simpa using ⟨ih, ht⟩)
  | within hc _ _ ihx ihxs =>
    exact canSwap_call (by simp [hc]) (by simpa using ⟨ihx, canSwap_list ihxs⟩)
  | scalarQuery hc _ ih =>
    intro hs
    obtain ⟨n', hn'⟩ := ih (by simpa [children] using hs.exists_child (by simp))
    obtain ⟨q', rfl⟩ := hn'.exists_select
    exact ⟨_, .scalarQuery hc hn'⟩
  | item _ ih =>
    intro hs
    obtain ⟨n', hn'⟩ := ih hs
    exact ⟨n', .unnamed hn'⟩
  | named hc _ name ih =>
    intro hs
    obtain ⟨n', hn'⟩ := ih (by simpa [children, hname] using hs.exists_child (by simp))
    exact ⟨_, .named hc _ hn'⟩
  | join _ kind t ih =>
    intro hs
    obtain ⟨n', hn'⟩ := ih (by simpa [children, htable] using hs.exists_child (by simp))
    exact ⟨_, .left kind _ _ hn'⟩
  | @joinOn x y _ kind t _ ihx ihy =>
    intro hs
    have hsides : (Node.select s).StandsIn x ∨ (Node.select s).StandsIn y := by
      simpa [children, htable] using hs.exists_child (by simp)
    rcases hsides with hs | hs
    · obtain ⟨n', hn'⟩ := ihx hs
      exact ⟨_, .left kind _ _ hn'⟩
    · obtain ⟨n', hn'⟩ := ihy hs
      exact ⟨_, .condition _ kind _ hn'⟩
  | query _ _ _ _ _ _ items source filter groupBy having orderBy =>
    exact canSwap_query items source filter groupBy having orderBy

end Node

/-- A query that stands in a query of a text can be another one there. -/
lemma Select.IsWritten.exists_swaps {q s : Select} (hq : q.IsWritten)
    (hs : (Node.select s).StandsIn (.select q)) (s' : Select) :
    ∃ q', Node.Swaps s s' .query (.select q) (.select q') := by
  obtain ⟨n', hn'⟩ := hq.canSwap s s' hs
  obtain ⟨q', rfl⟩ := hn'.exists_select
  exact ⟨q', hn'⟩

/-! ### Resolving around a sub-query -/

section

variable {c : Catalog} {ts : Tables} {part : Outcome Select} {n n' : Node}

lemma hangsOn_resolveEach (before after : List Node)
    (h : part.HangsOn (resolve c ts n) (resolve c ts n')) :
    part.HangsOn (resolveEach c ts (before ++ n :: after))
      (resolveEach c ts (before ++ n' :: after)) := by
  induction before with
  | nil => exact h.bind _ _
  | cons m before ih => exact .after _ fun _ => ih.bind _ _

lemma resolveItems_cons (hn : ∀ i, n ≠ .identifier i) (ns : List Node) :
    resolveItems c ts (n :: ns) = do return (← resolve c ts n) :: (← resolveItems c ts ns) := by
  cases n with
  | identifier i => exact absurd rfl (hn i)
  | _ => rfl

lemma hangsOn_resolveItems (before after : List Node) (hne : ∀ i, n ≠ .identifier i)
    (hne' : ∀ i, n' ≠ .identifier i)
    (h : part.HangsOn (resolve c ts n) (resolve c ts n')) :
    part.HangsOn (resolveItems c ts (before ++ n :: after))
      (resolveItems c ts (before ++ n' :: after)) := by
  induction before with
  | nil =>
    rw [List.nil_append, List.nil_append, resolveItems_cons hne, resolveItems_cons hne']
    exact h.bind _ _
  | cons m before ih =>
    cases m with
    | identifier i =>
      simp only [List.cons_append, resolveItems]
      split
      · exact .after _ fun _ => .after _ fun _ => ih.bind _ _
      · exact .after _ fun _ => ih.bind _ _
    | _ => exact .after _ fun _ => ih.bind _ _

lemma checkStars_swap (before after : List Node) (hne : ∀ i, n ≠ .identifier i)
    (hne' : ∀ i, n' ≠ .identifier i) :
    checkStars ts (before ++ n :: after) = checkStars ts (before ++ n' :: after) := by
  induction before with
  | nil => cases n <;> cases n' <;> simp_all [checkStars]
  | cons m before ih => exact bind_congr fun _ => ih

variable {named : List (String × Node)} {count : Nat}

lemma resolveKeys_expression (hn : ∀ i, n ≠ .identifier i) (hl : ∀ l, n ≠ .literal l)
    (descending : Bool) (keys : List (SortKey Node)) :
    resolveKeys c ts named count (⟨n, descending⟩ :: keys) = do
      let n ← resolve c ts n
      return ⟨n, descending⟩ :: (← resolveKeys c ts named count keys) := by
  cases n with
  | identifier i => exact absurd rfl (hn i)
  | literal l => exact absurd rfl (hl l)
  | _ => rfl

/-- The entries of an ordering are resolved one after the other. -/
lemma resolveKeys_append (keys keys' : List (SortKey Node)) :
    resolveKeys c ts named count (keys ++ keys') = do
      let before ← resolveKeys c ts named count keys
      let after ← resolveKeys c ts named count keys'
      return before ++ after := by
  induction keys with
  | nil => cases h : resolveKeys c ts named count keys' <;> simp [resolveKeys, h]
  | cons key keys ih =>
    obtain ⟨n, descending⟩ := key
    cases n with
    | identifier | literal =>
      simp only [List.cons_append, resolveKeys, ih]
      split <;> simp
    | _ => simp [resolveKeys, ih]

lemma hangsOn_resolveKeys (before after : List (SortKey Node)) (descending : Bool)
    (hne : ∀ i, n ≠ .identifier i ∧ n' ≠ .identifier i)
    (hne' : ∀ l, n ≠ .literal l ∧ n' ≠ .literal l)
    (h : part.HangsOn (resolve c ts n) (resolve c ts n')) :
    part.HangsOn
      (resolveKeys c ts named count (before ++ ⟨n, descending⟩ :: after))
      (resolveKeys c ts named count (before ++ ⟨n', descending⟩ :: after)) := by
  rw [resolveKeys_append, resolveKeys_append,
    resolveKeys_expression (fun i => (hne i).1) fun l => (hne' l).1,
    resolveKeys_expression (fun i => (hne i).2) fun l => (hne' l).2]
  exact .after _ fun _ => (h.bind _ _).bind _ _

/-- How the resolution of a tree hangs on a part of it, by the place of the tree. -/
def Category.HangsOn (c : Catalog) (part : Outcome Select) : Category → Node → Node → Prop
  | .expression, n, n' | .item, n, n' =>
    ∀ ts, part.HangsOn (resolve c ts n) (resolve c ts n')
  | .tables, n, n' => ∀ ts, part.HangsOn (resolveSource c ts n) (resolveSource c ts n')
  | .query, n, n' => ∀ q q', n = .select q → n' = .select q' →
    part.HangsOn (resolveSelect c q) (resolveSelect c q')

/-- What stands around a sub-query is resolved only if the sub-query is. -/
theorem hangsOn_of_swaps {s s' : Select} {k : Category} (h : n.Swaps s s' k n') :
    k.HangsOn c (resolveSelect c s) n n' := by
  obtain ⟨part, hpart⟩ : ∃ part, part = resolveSelect c s := ⟨_, rfl⟩
  rw [← hpart]
  induction h with
  | here =>
    rintro _ _ ⟨⟩ ⟨⟩
    exact hpart ▸ .self _ _
  | scalarQuery hf _ ih =>
    intro ts
    simp only [resolve, hf]
    exact (ih _ _ rfl rfl).bind _ _
  | operand hquery hname before after _ ih =>
    intro ts
    rw [resolve_call_eq hquery hname, resolve_call_eq hquery hname]
    exact (hangsOn_resolveEach before after (ih ts)).map _ _
  | member before after _ ih =>
    intro ts
    rw [resolve, resolve]
    exact (hangsOn_resolveEach before after (ih ts)).map _ _
  | unnamed _ ih => exact ih
  | named hf rest _ ih =>
    intro ts
    simp only [resolve, hf]
    exact (ih ts).bind _ _
  | left kind right condition _ ih =>
    intro ts
    rw [resolveSource, resolveSource]
    exact (ih ts).bind _ _
  | condition left kind right _ ih =>
    intro ts
    rw [resolveSource, resolveSource]
    refine .after _ ?_
    rintro ⟨ts, left⟩
    refine .after _ ?_
    rintro ⟨ts, right⟩
    exact ((ih ts).map _ _).bind _ _
  | item q before after h ih =>
    rintro _ _ ⟨⟩ ⟨⟩
    have hne := h.ne.1
    rw [resolveSelect_eq, resolveSelect_eq]
    refine .after _ ?_
    rintro ⟨ts, source⟩
    simp only [checkStars_swap before after (fun i => (hne i).1) fun i => (hne i).2]
    exact .after _ fun _ => (hangsOn_resolveItems before after (fun i => (hne i).1)
      (fun i => (hne i).2) (ih ts)).bind _ _
  | source q _ ih =>
    rintro _ _ ⟨⟩ ⟨⟩
    rw [resolveSelect_eq, resolveSelect_eq]
    exact ((ih []).map _ _).bind _ _
  | filter q _ ih =>
    rintro _ _ ⟨⟩ ⟨⟩
    rw [resolveSelect_eq, resolveSelect_eq]
    refine .after _ ?_
    rintro ⟨ts, source⟩
    exact .after _ fun _ => .after _ fun _ => ((ih ts).map _ _).bind _ _
  | groupBy q before after _ ih =>
    rintro _ _ ⟨⟩ ⟨⟩
    rw [resolveSelect_eq, resolveSelect_eq]
    refine .after _ ?_
    rintro ⟨ts, source⟩
    exact .after _ fun _ => .after _ fun _ => .after _ fun _ =>
      (hangsOn_resolveEach before after (ih ts)).bind _ _
  | having q _ ih =>
    rintro _ _ ⟨⟩ ⟨⟩
    rw [resolveSelect_eq, resolveSelect_eq]
    refine .after _ ?_
    rintro ⟨ts, source⟩
    exact .after _ fun _ => .after _ fun _ => .after _ fun _ => .after _ fun _ =>
      ((ih ts).map _ _).bind _ _
  | orderBy q before after descending h ih =>
    rintro _ _ ⟨⟩ ⟨⟩
    rw [resolveSelect_eq, resolveSelect_eq]
    refine .after _ ?_
    rintro ⟨ts, source⟩
    exact .after _ fun _ => .after _ fun _ => .after _ fun _ => .after _ fun _ =>
      .after _ fun _ => .after _ fun _ =>
        (hangsOn_resolveKeys before after descending h.ne.1 h.ne.2 (ih ts)).bind _ _

end

end GraphSelect
