import GraphSelect.Conversion
import GraphSelect.Proofs.Grammar
import Mathlib.Data.List.Forall2
import Mathlib.Tactic.Common

/-!
The clauses of a query that has a plan.

A plan is put together from what each clause becomes. What is proved of a clause is proved of the
expressions in it, so this says where the steps of a clause come from: which scope sees the
expressions, and which steps are theirs.
-/

namespace GraphSelect

namespace Outcome

lemma inClause_eq_ok {α : Type} {clause : String} {x : Outcome α} {a : α} :
    inClause clause x = .ok a ↔ x = .ok a := by
  cases x <;> simp [inClause]

/-- A list is mapped member by member. -/
lemma forall₂_of_mapM {α β : Type} {f : α → Outcome β} {xs : List α} {ys : List β}
    (h : xs.mapM f = .ok ys) : List.Forall₂ (fun x y => f x = .ok y) xs ys := by
  induction xs generalizing ys with
  | nil =>
    cases h
    exact .nil
  | cons x xs ih =>
    rw [List.mapM_cons] at h
    obtain ⟨y, hy, h⟩ := bind_eq_ok.1 h
    obtain ⟨ys, hys, h⟩ := bind_eq_ok.1 h
    cases h
    exact .cons hy (ih hys)

lemma exists_mapM {α β : Type} {f : α → Outcome β} {xs : List α}
    (h : ∀ x ∈ xs, ∃ y, f x = .ok y) : ∃ ys, xs.mapM f = .ok ys := by
  induction xs with
  | nil => exact ⟨[], rfl⟩
  | cons x xs ih =>
    obtain ⟨hx, hxs⟩ := List.forall_mem_cons.1 h
    obtain ⟨y, hy⟩ := hx
    obtain ⟨ys, hys⟩ := ih hxs
    exact ⟨y :: ys, by simp [List.mapM_cons, hy, hys]⟩

end Outcome

section

variable {α β : Type} {R : α → β → Prop} {xs : List α} {ys : List β}

lemma exists_left_of_forall₂ (h : List.Forall₂ R xs ys) : ∀ y ∈ ys, ∃ x ∈ xs, R x y := by
  induction h with
  | nil => simp
  | cons hxy _ ih =>
    refine List.forall_mem_cons.2 ⟨⟨_, List.mem_cons_self, hxy⟩, fun y hy => ?_⟩
    obtain ⟨x, hx, h⟩ := ih y hy
    exact ⟨x, List.mem_cons_of_mem _ hx, h⟩

lemma exists_right_of_forall₂ (h : List.Forall₂ R xs ys) : ∀ x ∈ xs, ∃ y ∈ ys, R x y :=
  exists_left_of_forall₂ (R := flip R) h.flip

lemma mem_of_lookup [BEq α] [LawfulBEq α] {ps : List (α × β)} {a : α} {b : β}
    (h : ps.lookup a = some b) : (a, b) ∈ ps := by
  obtain ⟨before, after, rfl, -⟩ := List.lookup_eq_some_iff.1 h
  exact List.mem_append_right before List.mem_cons_self

end

namespace Outcome

/-- Every result comes from a member of the list, and every member has one. -/
lemma mapM_eq_ok {α β : Type} {f : α → Outcome β} {xs : List α} {ys : List β}
    (h : xs.mapM f = .ok ys) :
    (∀ y ∈ ys, ∃ x ∈ xs, f x = .ok y) ∧ ∀ x ∈ xs, ∃ y ∈ ys, f x = .ok y :=
  ⟨exists_left_of_forall₂ (forall₂_of_mapM h), exists_right_of_forall₂ (forall₂_of_mapM h)⟩

end Outcome

/-! ### Expressions as operands -/

namespace Operand

lemma forall₂_ofNodes {ns : List Node} {os : List Operand} (h : ofNodes ns = .ok os) :
    List.Forall₂ (fun n o => ofNode n = .ok o) ns os := by
  induction ns generalizing os with
  | nil =>
    cases h
    exact .nil
  | cons n ns ih =>
    obtain ⟨o, ho, h⟩ := Outcome.bind_eq_ok.1 h
    obtain ⟨rest, hrest, h⟩ := Outcome.bind_eq_ok.1 h
    cases h
    exact .cons ho (ih hrest)

lemma textOf_eq_ok {n : Node} {text : String} : textOf n = .ok text ↔ n.sql? = some text := by
  unfold textOf
  split <;> simp_all

lemma ofNode_call (c : Call) (ns : List Node) :
    ofNode (.call c ns) = (do
      let os ← ofCall c ns
      let text ← textOf (.call c ns)
      return .apply c text text os) := by
  rw [ofNode, ofCall]
  split <;> rfl

lemma ofNode_eq_column {n : Node} {i : Identifier} (h : ofNode n = .ok (.column i)) :
    n = .identifier i := by
  cases n with
  | identifier j =>
    cases h
    rfl
  | call c ns =>
    rw [ofNode_call] at h
    obtain ⟨os, -, h⟩ := Outcome.bind_eq_ok.1 h
    obtain ⟨text, -, h⟩ := Outcome.bind_eq_ok.1 h
    cases h
  | _ => simp [ofNode] at h

lemma ofNode_eq_constant {n : Node} {l : Literal} (h : ofNode n = .ok (.constant l)) :
    n = .literal l := by
  cases n with
  | literal l' =>
    cases h
    rfl
  | call c ns =>
    rw [ofNode_call] at h
    obtain ⟨os, -, h⟩ := Outcome.bind_eq_ok.1 h
    obtain ⟨text, -, h⟩ := Outcome.bind_eq_ok.1 h
    cases h
  | _ => simp [ofNode] at h

lemma ofNode_eq_apply {n : Node} {c : Call} {text label : String} {os : List Operand}
    (h : ofNode n = .ok (.apply c text label os)) :
    ∃ ns, n = .call c ns ∧ ofCall c ns = .ok os ∧ textOf n = .ok text := by
  cases n with
  | call c' ns =>
    rw [ofNode_call] at h
    obtain ⟨os', hos, h⟩ := Outcome.bind_eq_ok.1 h
    obtain ⟨text', htext, h⟩ := Outcome.bind_eq_ok.1 h
    cases h
    exact ⟨ns, rfl, hos, htext⟩
  | _ => simp [ofNode] at h

end Operand

/-! ### Conditions, keys and items -/

/-- The filter of a condition, if there is one. -/
inductive Filters (s : Scope) : Option Node → Steps → Prop
  | none : Filters s none []
  | some {n : Node} {o : Operand} {v : Steps} (ho : Operand.ofNode n = .ok o)
      (hv : o.filter s = .ok v) : Filters s (some n) v

/-- An entry of a grouping that makes a key. -/
structure IsKey (s : Scope) (ns : List Node) (k : String × Steps) (n : Node) (o : Operand) :
    Prop where
  mem : n ∈ ns
  operand : Operand.ofNode n = .ok o
  name : keyName s n o = .ok k.1
  value : o.value s = .ok k.2

lemma exists_isKey {s : Scope} {before keys : List (String × Steps)} {ns : List Node}
    (h : groupKeysFrom s before ns = .ok keys) {k : String × Steps} (hk : k ∈ keys) :
    k ∈ before ∨ ∃ n o, IsKey s ns k n o := by
  induction ns generalizing before with
  | nil =>
    cases h
    exact .inl hk
  | cons n ns ih =>
    have hlater : (∃ m o, IsKey s ns k m o) → ∃ m o, IsKey s (n :: ns) k m o :=
      fun ⟨m, o, hm⟩ => ⟨m, o, { hm with mem := List.mem_cons_of_mem _ hm.mem }⟩
    rw [groupKeysFrom] at h
    obtain ⟨o, ho, h⟩ := Outcome.bind_eq_ok.1 h
    obtain ⟨name, hname, h⟩ := Outcome.bind_eq_ok.1 h
    split at h
    · exact (ih h).imp_right hlater
    · obtain ⟨v, hv, h⟩ := Outcome.bind_eq_ok.1 h
      rcases ih h with hk | hk
      · rcases List.mem_append.1 hk with hk | hk
        · exact .inl hk
        · obtain rfl := List.mem_singleton.1 hk
          exact .inr ⟨n, o, List.mem_cons_self, ho, hname, hv⟩
      · exact .inr (hlater hk)

/-- Every entry of a grouping has the name of a key. -/
lemma exists_keyName {s : Scope} {before keys : List (String × Steps)} {ns : List Node}
    (h : groupKeysFrom s before ns = .ok keys) :
    (∀ k ∈ before, k ∈ keys) ∧ ∀ n ∈ ns, ∃ o name, Operand.ofNode n = .ok o ∧
      keyName s n o = .ok name ∧ name ∈ keys.map (·.1) := by
  induction ns generalizing before with
  | nil =>
    cases h
    exact ⟨fun _ => id, by simp⟩
  | cons n ns ih =>
    rw [groupKeysFrom] at h
    obtain ⟨o, ho, h⟩ := Outcome.bind_eq_ok.1 h
    obtain ⟨name, hname, h⟩ := Outcome.bind_eq_ok.1 h
    split at h
    · next hold =>
      obtain ⟨hkeys, hns⟩ := ih h
      obtain ⟨k, hk, hkname⟩ := List.lookup_isSome_iff.1 hold
      exact ⟨hkeys, List.forall_mem_cons.2 ⟨⟨o, name, ho, hname,
        List.mem_map.2 ⟨k, hkeys k hk, (eq_of_beq hkname).symm⟩⟩, hns⟩⟩
    · obtain ⟨v, hv, h⟩ := Outcome.bind_eq_ok.1 h
      obtain ⟨hkeys, hns⟩ := ih h
      exact ⟨fun k hk => hkeys k (List.mem_append_left _ hk), List.forall_mem_cons.2 ⟨⟨o, name, ho,
        hname, List.mem_map.2 ⟨(name, v), hkeys _ (by simp), rfl⟩⟩, hns⟩⟩

/-- The name that a select item asks for: the one it has been given, or that of its expression. -/
def wantedName (asName : Option String) (o : Operand) : Outcome String :=
  match asName.filter (· ≠ "") with
  | some a => .ok a
  | none => o.name

/-- The type of a select item. -/
def itemType (s : Scope) (e : Node) (o : Operand) : Outcome TypeName :=
  match e.type? with
  | some t => .ok t
  | none => o.type s

lemma item_eq (s : Scope) (used : List String) (n : Node) :
    item s used n = (do
      let (e, asName) ← unnamed n
      let o ← Operand.ofNode e
      let wanted ← wantedName asName o
      let type ← itemType s e o
      let name := freshName used wanted
      return ⟨name, o.rename name, type, asName⟩) := by
  unfold item
  congr 1
  funext ⟨e, asName⟩
  dsimp only [wantedName, itemType]
  cases asName.filter (· ≠ "") <;> cases e.type? <;> rfl

/-- A select item is its expression, or gives it a name. -/
lemma unnamed_cases {n e : Node} {name : Option String} (h : unnamed n = .ok (e, name)) :
    e = n ∨ ∃ c i, c.operator = .rename ∧ n = .call c [e, .identifier i] := by
  unfold unnamed at h
  split at h
  · split at h
    · next hc =>
      split at h
      · cases h
        exact .inr ⟨_, _, hc, rfl⟩
      · simp at h
    · cases h
      exact .inl rfl
  · cases h
    exact .inl rfl

lemma expression_of_unnamed {n e : Node} {name : Option String} (h : unnamed n = .ok (e, name)) :
    e = n.expression := by
  unfold unnamed at h
  unfold Node.expression
  split at h
  · split at h
    · next hc =>
      split at h
      · cases h
        exact (if_pos hc).symm
      · simp at h
    · next hc =>
      cases h
      split
      · next heq =>
        cases heq
        exact (if_neg hc).symm
      · rfl
  · next hcall =>
    cases h
    split
    · exact absurd rfl (hcall _ _)
    · rfl

/-- What an item is made from. -/
lemma item_cases {s : Scope} {used : List String} {n : Node} {i : Item}
    (h : item s used n = .ok i) : ∃ e o, unnamed n = .ok (e, i.asName) ∧
      Operand.ofNode e = .ok o ∧ i.operand = o.rename i.name := by
  rw [item_eq] at h
  obtain ⟨⟨e, asName⟩, he, h⟩ := Outcome.bind_eq_ok.1 h
  obtain ⟨o, ho, h⟩ := Outcome.bind_eq_ok.1 h
  obtain ⟨wanted, -, h⟩ := Outcome.bind_eq_ok.1 h
  obtain ⟨type, -, h⟩ := Outcome.bind_eq_ok.1 h
  cases h
  exact ⟨e, o, he, ho, rfl⟩

lemma forall₂_itemsFrom {s : Scope} {used : List String} {ns : List Node} {items : List Item}
    (h : itemsFrom s used ns = .ok items) :
    List.Forall₂ (fun n i => ∃ used, item s used n = .ok i) ns items := by
  induction ns generalizing used items with
  | nil =>
    cases h
    exact .nil
  | cons n ns ih =>
    obtain ⟨i, hi, h⟩ := Outcome.bind_eq_ok.1 h
    obtain ⟨rest, hrest, h⟩ := Outcome.bind_eq_ok.1 h
    cases h
    exact .cons ⟨used, hi⟩ (ih hrest)

/-! ### Plans -/

/-- What the clauses of a query become. -/
structure Clauses where
  /-- What is known of a row. -/
  row : Scope
  source : Steps
  filter : Steps
  items : List Item
  /-- What is known where the items are projected: the same, or what is known of a group. -/
  result : Scope
  grouping : Steps
  having : Steps
  sorting : Steps
  projection : Steps

/-- How the clauses of a query become what they do. -/
structure Clauses.Of (x : Clauses) (c : Catalog) (q : Select) : Prop where
  source : ∃ n, q.source = some n ∧ sourceSteps (.initial c) n = .ok (x.row, x.source)
  filter : Filters x.row q.filter x.filter
  items : itemsFrom x.row [] q.items = .ok x.items
  grouping : if q.needsGrouping then grouped x.row q.groupBy = .ok (x.result, x.grouping)
    else x.result = x.row ∧ x.grouping = []
  having : Filters x.result q.having x.having
  sorting : orderSteps x.result x.items q.orderBy = .ok x.sorting
  projection : projectionSteps x.result x.items = .ok x.projection

/-- The steps of the clauses one after the other. -/
def Clauses.steps (x : Clauses) (q : Select) (maxRows : Option Int) : Steps :=
  x.source ++ x.filter ++ x.grouping ++ x.having ++ x.sorting ++
    if q.distinct then x.projection ++ [.dedup] ++ limitSteps q.limit maxRows
    else limitSteps q.limit maxRows ++ x.projection

/-- The filter of a condition inside a clause. -/
def conditionSteps (s : Scope) (clause : String) : Option Node → Outcome Steps
  | none => .ok []
  | some n => Outcome.inClause clause ((Operand.ofNode n).bind (·.filter s))

lemma filters_of_ok {s : Scope} {clause : String} {n : Option Node} {v : Steps}
    (h : conditionSteps s clause n = .ok v) : Filters s n v := by
  cases n with
  | none =>
    cases h
    exact .none
  | some n =>
    obtain ⟨o, ho, hv⟩ := Outcome.bind_eq_ok.1 (Outcome.inClause_eq_ok.1 h)
    exact .some ho hv

/-- What is known of the results, and the steps that group rows if they have to be. -/
def groupSteps (row : Scope) (q : Select) : Outcome (Scope × Steps) :=
  if q.needsGrouping then Outcome.inClause "GROUP BY" (grouped row q.groupBy) else .ok (row, [])

variable {c : Catalog} {source : Option String} {maxRows : Option Int} {q : Select}

/-- The clauses are planned one after the other. -/
lemma plan_of_source {n : Node} (ho : q.offset = none) (hn : q.source = some n) :
    plan c source maxRows q = (do
      let (row, fromSteps) ← Outcome.inClause "FROM" (sourceSteps (.initial c) n)
      let filter ← conditionSteps row "WHERE" q.filter
      let items ← Outcome.inClause "SELECT" (itemsFrom row [] q.items)
      let (result, grouping) ← groupSteps row q
      let having ← conditionSteps result "HAVING" q.having
      let sorting ← Outcome.inClause "ORDER BY" (orderSteps result items q.orderBy)
      let projection ← Outcome.inClause "SELECT" (projectionSteps result items)
      let x : Clauses :=
        ⟨row, fromSteps, filter, items, result, grouping, having, sorting, projection⟩
      return ⟨⟨source, x.steps q maxRows⟩, items.map fun i => ⟨i.name, i.type⟩⟩) := by
  unfold plan groupSteps
  rw [ho, hn]
  cases q.filter <;> cases q.having <;> cases q.needsGrouping <;> rfl

/-- A query with a plan has tables, and its clauses become the steps of the plan. -/
theorem plan_eq_ok {p : Plan} (h : plan c source maxRows q = .ok p) :
    ∃ x : Clauses, x.Of c q ∧ p.traversal = ⟨source, x.steps q maxRows⟩ ∧
      p.columns = x.items.map fun i => ⟨i.name, i.type⟩ := by
  obtain ⟨ho, n, hn⟩ : q.offset = none ∧ ∃ n, q.source = some n := by
    unfold plan at h
    cases ho : q.offset with
    | some => simp [ho] at h
    | none =>
      cases hn : q.source with
      | none => simp [ho, hn] at h
      | some n => exact ⟨rfl, n, rfl⟩
  rw [plan_of_source ho hn] at h
  obtain ⟨⟨row, source⟩, hsource, h⟩ := Outcome.bind_eq_ok.1 h
  obtain ⟨filter, hfilter, h⟩ := Outcome.bind_eq_ok.1 h
  obtain ⟨items, hitems, h⟩ := Outcome.bind_eq_ok.1 h
  obtain ⟨⟨result, grouping⟩, hgrouping, h⟩ := Outcome.bind_eq_ok.1 h
  obtain ⟨having, hhaving, h⟩ := Outcome.bind_eq_ok.1 h
  obtain ⟨sorting, hsorting, h⟩ := Outcome.bind_eq_ok.1 h
  obtain ⟨projection, hprojection, h⟩ := Outcome.bind_eq_ok.1 h
  cases h
  refine ⟨⟨row, source, filter, items, result, grouping, having, sorting, projection⟩,
    ⟨⟨n, hn, Outcome.inClause_eq_ok.1 hsource⟩, filters_of_ok hfilter,
      Outcome.inClause_eq_ok.1 hitems, ?_, filters_of_ok hhaving,
      Outcome.inClause_eq_ok.1 hsorting, Outcome.inClause_eq_ok.1 hprojection⟩, rfl, rfl⟩
  unfold groupSteps at hgrouping
  split at hgrouping
  · next hq => simpa [hq] using Outcome.inClause_eq_ok.1 hgrouping
  · next hq =>
    cases hgrouping
    simp [hq]

/-- The query of a text is resolved and planned. -/
lemma Converter.convert_of_parse {x : Converter} {text : String} {q : Select}
    (hq : Parser.parse text = .ok q) :
    x.convert text = ((x.resolve q).bind x.plan).mapError .failed := by
  rw [convert, hq]
  rfl

/-- A text that converts is that of a query, which resolves and has a plan. -/
theorem Converter.convert_eq_ok {x : Converter} {text : String} {p : Plan}
    (h : x.convert text = .ok p) :
    ∃ q q', Parser.parse text = .ok q ∧ q.resolve x.catalog = .ok q' ∧
      GraphSelect.plan x.catalog x.source x.maxRows q' = .ok p := by
  cases hq : Parser.parse text with
  | error e =>
    rw [convert, hq] at h
    cases h
  | ok q =>
    rw [convert_of_parse hq] at h
    cases hp : (x.resolve q).bind x.plan with
    | error e =>
      rw [hp] at h
      cases h
    | ok p' =>
      rw [hp] at h
      cases h
      obtain ⟨q', hq', hplan⟩ := Outcome.bind_eq_ok.1 hp
      exact ⟨q, q', rfl, hq', hplan⟩

/-- Whether a text converts can be computed. -/
lemma Converter.exists_of_isOk {x : Converter} {text : String} (h : (x.convert text).isOk) :
    ∃ p, x.convert text = .ok p := by
  cases hp : x.convert text with
  | ok p => exact ⟨p, rfl⟩
  | error e =>
    rw [hp] at h
    cases h

end GraphSelect
