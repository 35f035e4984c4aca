import GraphSelect.Proofs.Grammar
import GraphSelect.Query.Node.Parts
import GraphSelect.Query.Node.Printer

/-!
The operands that calls are taken to have.

A select item with a name, a cast and a sub-query are read as if they had the operands that they are
written with, and so is a name as if it had a last part. The type of trees does not promise any of
this, but the grammar does: in the tree of a text every node is whole, wherever it stands, and has a
text of its own.
-/

namespace GraphSelect

namespace Node

/-- The nodes directly below a node. -/
def children : Node → List Node
  | .list nodes => nodes
  | .call _ operands => operands
  | .join left _ right condition => left :: right :: condition.toList
  | .order key => [key.expression]
  | .select q => q.items ++ q.source.toList ++ q.filter.toList ++ q.groupBy ++ q.having.toList ++
      q.orderBy.map (·.expression)
  | _ => []

/-- Whether a node stands in another one, at any depth. -/
inductive StandsIn (m : Node) : Node → Prop
  | self : StandsIn m m
  | child {k n : Node} (hk : k ∈ n.children) (hm : StandsIn m k) : StandsIn m n

lemma StandsIn.trans {m k n : Node} (hm : m.StandsIn k) (hk : k.StandsIn n) : m.StandsIn n := by
  induction hk with
  | self => exact hm
  | child hk _ ih => exact .child hk ih

lemma forall_standsIn {P : Node → Prop} {n : Node} (hself : P n)
    (hbelow : ∀ k ∈ n.children, ∀ m, m.StandsIn k → P m) : ∀ m, m.StandsIn n → P m
  | _, .self => hself
  | m, .child hk hm => hbelow _ hk m hm

lemma forall_standsIn_leaf {P : Node → Prop} {n : Node} (hself : P n) (hleaf : n.children = []) :
    ∀ m, m.StandsIn n → P m :=
  forall_standsIn hself (by simp [hleaf])

mutual
lemma standsIn_of_mem_parts {m n : Node} (h : m ∈ n.parts) : m.StandsIn n := by
  cases n with
  | list ns =>
    rw [parts] at h
    rcases List.mem_cons.1 h with rfl | h
    · exact .self
    · obtain ⟨k, hk, hm⟩ := exists_standsIn_of_mem_partsEach h
      exact .child hk hm
  | call c ns =>
    rw [parts] at h
    rcases List.mem_cons.1 h with rfl | h
    · exact .self
    · split at h
      · simp at h
      · obtain ⟨k, hk, hm⟩ := exists_standsIn_of_mem_partsEach h
        exact .child hk hm
  | _ =>
    obtain rfl : m = _ := by simpa [parts] using h
    exact .self

lemma exists_standsIn_of_mem_partsEach {m : Node} {ns : List Node} (h : m ∈ partsEach ns) :
    ∃ k ∈ ns, m.StandsIn k := by
  cases ns with
  | nil => simp [partsEach] at h
  | cons n ns =>
    rw [partsEach] at h
    rcases List.mem_append.1 h with h | h
    · exact ⟨n, List.mem_cons_self, standsIn_of_mem_parts h⟩
    · obtain ⟨k, hk, hm⟩ := exists_standsIn_of_mem_partsEach h
      exact ⟨k, List.mem_cons_of_mem _ hk, hm⟩
end

/-- A node with the operands that its kind is taken to have. -/
def HasOperands : Node → Prop
  | .identifier i => i.names ≠ []
  | .call c operands =>
    match c.operator with
    | .rename => ∃ x i, operands = [x, .identifier i]
    | .cast => ∃ x t, operands = [x, .typeSpec t]
    | .scalarQuery => ∃ q, operands = [.select q]
    | _ => True
  | _ => True

/-- A node that has its operands, and a text. -/
structure IsComplete (n : Node) : Prop where
  operands : n.HasOperands
  text : n.sql?.isSome = true

/-- A tree in which every node has its operands and a text. -/
def IsWhole (n : Node) : Prop := ∀ m : Node, m.StandsIn n → m.IsComplete

/-! ### Texts -/

lemma isSome_mapM_id {texts : List (Option String)} (h : ∀ t ∈ texts, t.isSome = true) :
    (texts.mapM id).isSome = true := by
  induction texts with
  | nil => rfl
  | cons t texts ih =>
    obtain ⟨ht, hrest⟩ := List.forall_mem_cons.1 h
    obtain ⟨t, rfl⟩ := Option.isSome_iff_exists.1 ht
    obtain ⟨ts, hts⟩ := Option.isSome_iff_exists.1 (ih hrest)
    simp [hts]

/-- A call has a text if its operands have, and it has those that it needs. -/
lemma isSome_sql?_call {c : Call} {ns : List Node} (hc : (Node.call c ns).HasOperands)
    (hns : ∀ n ∈ ns, n.sql?.isSome = true) : (Node.call c ns).sql?.isSome = true := by
  have hplain : ∀ t ∈ ns.map sql?, ∃ a, t = some a :=
    List.forall_mem_map.2 fun n hn => Option.isSome_iff_exists.1 (hns n hn)
  have hnested : ∀ t ∈ ns.map fun n => n.sql?.map n.bracket, ∃ a, t = some a :=
    List.forall_mem_map.2 fun n hn => Option.isSome_iff_exists.1 (by simpa using hns n hn)
  have htexts : ((ns.map sql?).mapM id).isSome = true :=
    isSome_mapM_id fun t ht => Option.isSome_iff_exists.2 (hplain t ht)
  obtain ⟨ts, hts⟩ := Option.isSome_iff_exists.1 htexts
  rw [sql?_call]
  unfold callText?
  split
  case h_1 hp hn =>
    obtain ⟨a, rfl⟩ := hnested _ (hn ▸ List.mem_cons_self)
    obtain ⟨b, rfl⟩ := hplain _ (hp ▸ List.mem_cons_of_mem _ List.mem_cons_self)
    rfl
  case h_2 hop hshort =>
    rw [HasOperands, hop] at hc
    obtain ⟨x, t, rfl⟩ := hc
    exact absurd rfl (hshort _ _ _ _ _ rfl)
  case h_3 hp =>
    obtain ⟨a, rfl⟩ := hplain _ (hp ▸ List.mem_cons_self)
    rfl
  case h_4 hop hp =>
    rw [HasOperands, hop] at hc
    obtain ⟨q, rfl⟩ := hc
    cases hp
  case h_5 => simp [hts]
  case h_6 hn _ _ _ _ =>
    obtain ⟨a, rfl⟩ := hnested _ (hn ▸ List.mem_cons_self)
    rfl
  case h_7 hn _ _ _ _ =>
    obtain ⟨a, rfl⟩ := hnested _ (hn ▸ List.mem_cons_self)
    rfl
  case h_8 hn _ _ _ _ _ =>
    obtain ⟨a, rfl⟩ := hnested _ (hn ▸ List.mem_cons_self)
    obtain ⟨b, rfl⟩ := hnested _ (hn ▸ List.mem_cons_of_mem _ List.mem_cons_self)
    rfl
  case h_9 => simp [hts]

lemma exists_mapM_sqlEach {ns : List Node} (h : ∀ n ∈ ns, n.sql?.isSome = true) :
    ∃ ts, (sqlEach ns).mapM id = some ts := by
  rw [sqlEach_eq_map, ← Option.isSome_iff_exists]
  exact isSome_mapM_id (List.forall_mem_map.2 h)

lemma exists_clause (keyword : String) {text : Option (Option String)}
    (h : ∀ t ∈ text, t.isSome = true) : ∃ ts, clause? keyword text = some ts := by
  cases text with
  | none => exact ⟨[], rfl⟩
  | some text =>
    obtain ⟨t, rfl⟩ := Option.isSome_iff_exists.1 (h text rfl)
    exact ⟨[keyword ++ t], rfl⟩

lemma sqlOption_eq_map (n : Option Node) : sqlOption n = n.map sql? := by
  cases n <;> rfl

lemma exists_clauses (keyword : String) {texts : List (Option String)}
    (h : ∀ t ∈ texts, t.isSome = true) : ∃ ts, clauses? keyword texts = some ts := by
  obtain ⟨ts, hts⟩ := Option.isSome_iff_exists.1 (isSome_mapM_id h)
  cases texts with
  | nil => exact ⟨[], rfl⟩
  | cons t texts => exact ⟨[keyword ++ commas ts], by simp [clauses?, hts]⟩

lemma sqlKeys_eq_map (keys : List (SortKey Node)) :
    sqlKeys keys = keys.map fun k => ⟨k.expression.sql?, k.descending⟩ := by
  induction keys with
  | nil => rfl
  | cons k keys ih => simp [sqlKeys, ih]

lemma isSome_sql?_select {q : Select} (h : ∀ n ∈ (Node.select q).children, n.sql?.isSome = true) :
    (Node.select q).sql?.isSome = true := by
  obtain ⟨distinct, items, source, filter, groupBy, having, orderBy, limit, offset⟩ := q
  simp only [children, List.forall_mem_append, Option.mem_toList, List.forall_mem_map] at h
  obtain ⟨⟨⟨⟨⟨hitems, hsource⟩, hfilter⟩, hgroupBy⟩, hhaving⟩, horderBy⟩ := h
  have hoption {n : Option Node} (h : ∀ m ∈ n, m.sql?.isSome = true) :
      ∀ t ∈ sqlOption n, t.isSome = true := by
    rw [sqlOption_eq_map]
    rintro t ht
    obtain ⟨m, hm, rfl⟩ := Option.map_eq_some_iff.1 ht
    exact h m hm
  have hcount (l : Option Literal) :
      ∀ t ∈ l.map fun l => some l.value.sql, t.isSome = true := by simp
  have hgroups : ∀ t ∈ sqlEach groupBy, t.isSome = true := by
    rw [sqlEach_eq_map]
    exact List.forall_mem_map.2 hgroupBy
  have hkeys : ∀ t ∈ (sqlKeys orderBy).map fun k => k.expression.map (sortText k.descending),
      t.isSome = true := by
    rw [sqlKeys_eq_map, List.map_map]
    exact List.forall_mem_map.2 fun k hk => by simpa using horderBy k hk
  obtain ⟨_, h₁⟩ := exists_mapM_sqlEach hitems
  obtain ⟨_, h₂⟩ := exists_clause "FROM " (hoption hsource)
  obtain ⟨_, h₃⟩ := exists_clause "WHERE " (hoption hfilter)
  obtain ⟨_, h₄⟩ := exists_clauses "GROUP BY " hgroups
  obtain ⟨_, h₅⟩ := exists_clause "HAVING " (hoption hhaving)
  obtain ⟨_, h₆⟩ := exists_clauses "ORDER BY " hkeys
  obtain ⟨_, h₇⟩ := exists_clause "LIMIT " (hcount limit)
  obtain ⟨_, h₈⟩ := exists_clause "OFFSET " (hcount offset)
  simp [sql?, selectText?, h₁, h₂, h₃, h₄, h₅, h₆, h₇, h₈]

/-- A node that has its operands has a text if the nodes below it have. -/
lemma isSome_sql? {n : Node} (hn : n.HasOperands)
    (h : ∀ k ∈ n.children, k.sql?.isSome = true) : n.sql?.isSome = true := by
  cases n with
  | identifier | literal | typeSpec | table => rfl
  | list ns =>
    obtain ⟨ts, hts⟩ := exists_mapM_sqlEach (show ∀ n ∈ ns, n.sql?.isSome = true from h)
    simp [sql?, hts]
  | call c ns => exact isSome_sql?_call hn h
  | join left kind right condition =>
    obtain ⟨l, hl⟩ := Option.isSome_iff_exists.1 (h left (by simp [children]))
    obtain ⟨r, hr⟩ := Option.isSome_iff_exists.1 (h right (by simp [children]))
    cases condition with
    | none =>
      simp only [sql?, joinText?, hl, hr]
      split <;> rfl
    | some condition =>
      obtain ⟨on, hon⟩ := Option.isSome_iff_exists.1 (h condition (by simp [children]))
      simp only [sql?, joinText?, hl, hr, hon]
      split <;> rfl
  | order key =>
    obtain ⟨t, ht⟩ := Option.isSome_iff_exists.1 (h key.expression (by simp [children]))
    simp [sql?, ht]
  | select q => exact isSome_sql?_select h

/-! ### Trees of texts -/

/-- A tree is whole if its root has its operands and what is below it is whole. -/
lemma isWhole_of_children {n : Node} (hn : n.HasOperands) (h : ∀ k ∈ n.children, k.IsWhole) :
    n.IsWhole :=
  forall_standsIn ⟨hn, isSome_sql? hn fun k hk => (h k hk k .self).text⟩ h

lemma isWhole_leaf {n : Node} (hn : n.HasOperands) (hleaf : n.children = []) : n.IsWhole :=
  isWhole_of_children hn (by simp [hleaf])

lemma hasOperands_of_ne {c : Call}
    (hc : c.operator ≠ .scalarQuery ∧ c.operator ≠ .rename ∧ c.operator ≠ .cast) (ns : List Node) :
    (Node.call c ns).HasOperands := by
  obtain ⟨hquery, hname, hcast⟩ := hc
  unfold HasOperands
  split <;> simp_all

/-- A tree that some text denotes is whole. -/
theorem IsWritten.isWhole {k : Category} {n : Node} (h : n.IsWritten k) : n.IsWhole := by
  induction h with
  | @column i h =>
    have hi : i.names ≠ [] := by
      rintro hnil
      simp [hnil] at h
    exact isWhole_leaf hi rfl
  | literal => exact isWhole_leaf trivial rfl
  | infixed hc _ _ ihx ihy =>
    exact isWhole_of_children (hasOperands_of_ne (Operator.ne_of_affix (.inl hc)) _)
      (by simpa [children] using ⟨ihx, ihy⟩)
  | prefixed hc _ ih =>
    exact isWhole_of_children (hasOperands_of_ne (Operator.ne_of_affix (.inr (.inl hc))) _)
      (by simpa [children] using ih)
  | test hc _ ih =>
    exact isWhole_of_children (hasOperands_of_ne (Operator.ne_of_affix (.inr (.inr hc))) _)
      (by simpa [children] using ih)
  | function name hc _ ih =>
    exact isWhole_of_children (hasOperands_of_ne (hc ▸ Operator.ofFunctionName_ne name) _) ih
  | @cast c x hc _ t ih =>
    have htype : (Node.typeSpec t).IsWhole := isWhole_leaf trivial rfl
    refine isWhole_of_children ?_ (by simpa [children] using ⟨ih, htype⟩)
    rw [HasOperands, hc]
    exact ⟨x, t, rfl⟩
  | @within c x xs hc _ _ ihx ih =>
    have hlist : (Node.list xs).IsWhole := isWhole_of_children trivial ih
    exact isWhole_of_children (hasOperands_of_ne (by simp [hc]) _)
      (by simpa [children] using ⟨ihx, hlist⟩)
  | @scalarQuery c q hc _ ih =>
    refine isWhole_of_children ?_ (by simpa [children] using ih)
    rw [HasOperands, hc]
    exact ⟨q, rfl⟩
  | item _ ih => exact ih
  | @named c x hc _ name ih =>
    have hname : (Node.identifier ⟨[name], none⟩).IsWhole :=
      isWhole_leaf (by simp [HasOperands]) rfl
    refine isWhole_of_children ?_ (by simpa [children] using ⟨ih, hname⟩)
    rw [HasOperands, hc]
    exact ⟨x, _, rfl⟩
  | table t => exact isWhole_leaf trivial rfl
  | join _ kind t ih =>
    have htable : (Node.table t).IsWhole := isWhole_leaf trivial rfl
    exact isWhole_of_children trivial (by simpa [children] using ⟨ih, htable⟩)
  | joinOn _ kind t _ ihx ihy =>
    have htable : (Node.table t).IsWhole := isWhole_leaf trivial rfl
    exact isWhole_of_children trivial (by simpa [children] using ⟨ihx, htable, ihy⟩)
  | query _ _ _ _ _ _ ihItems ihSource ihFilter ihGroupBy ihHaving ihOrderBy =>
    refine isWhole_of_children trivial ?_
    simp only [children, List.forall_mem_append, Option.mem_toList, List.forall_mem_map]
    exact ⟨⟨⟨⟨⟨ihItems, ihSource⟩, ihFilter⟩, ihGroupBy⟩, ihHaving⟩, ihOrderBy⟩

end Node

end GraphSelect
