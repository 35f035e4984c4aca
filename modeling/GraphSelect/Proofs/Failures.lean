import GraphSelect.Proofs.Refusals
import GraphSelect.Query.Node.Parts

/-!
The ways in which a query can fail to have a plan.

Steps are planned for expressions whose columns have been looked up before and whose calls have
their operands, so of all failures there are only some. What an operand becomes looks up the columns
it reads and no other name, and it has a text if the calls in it have one: where both are so, it
fails over what a traversal cannot do and nothing else. A star that an aggregate is applied to is
not read, since it only counts rows.
-/

namespace GraphSelect

/-- Whether a failure is over a name. -/
def FaultKind.isNaming : FaultKind → Bool
  | .unknownTable | .ambiguousIdentifier | .unknownIdentifier => true
  | _ => false

namespace Fault

/-- Whether a failure has an argument for every place of its message. -/
def isComplete (f : Fault) : Bool :=
  f.kind.template.all fun
    | .words _ => true
    | .argument i => i < f.arguments.length

/-- Whether a failure is over what a traversal cannot do. -/
def isPlain (f : Fault) : Bool := !f.kind.isNaming && f.isComplete

end Fault

/-- A class of failures. It has those over what a traversal cannot do, and the clause in which a
failure arises makes no difference. -/
structure FailureClass where
  Has : Failure → Prop
  plain {f : Fault} (h : f.isPlain = true) : Has (.fault f)
  within {e : Failure} (clause : String) (h : Has e) : Has (e.within clause)

namespace Outcome

variable {α β : Type} {K : FailureClass}

/-- Work that fails in the ways of a class only. -/
def FailsIn (K : FailureClass) (x : Outcome α) : Prop := ∀ e, x = .error e → K.Has e

lemma failsIn_ok (a : α) : FailsIn K (.ok a) := failsOnly_ok a

lemma failsIn_error {e : Failure} (h : K.Has e) : FailsIn K (.error e : Outcome α) :=
  failsOnly_error h

lemma failsIn_fault {f : Fault} (h : f.isPlain = true) : FailsIn K (fault f : Outcome α) :=
  failsIn_error (K.plain h)

lemma FailsIn.bind {x : Outcome α} {f : α → Outcome β} (hx : FailsIn K x)
    (hf : ∀ a, x = .ok a → FailsIn K (f a)) : FailsIn K (x >>= f) :=
  FailsOnly.bind hx hf

lemma FailsIn.map {x : Outcome α} (f : α → β) (hx : FailsIn K x) : FailsIn K (x.map f) :=
  FailsOnly.map f hx

lemma FailsIn.inClause {x : Outcome α} (clause : String) (hx : FailsIn K x) :
    FailsIn K (x.inClause clause) :=
  FailsOnly.inClause hx fun _ => K.within clause

lemma FailsIn.mapM {f : α → Outcome β} {xs : List α} (hf : ∀ x ∈ xs, FailsIn K (f x)) :
    FailsIn K (xs.mapM f) :=
  FailsOnly.mapM hf

lemma FailsIn.forM {f : α → Outcome Unit} {xs : List α} (hf : ∀ x ∈ xs, FailsIn K (f x)) :
    FailsIn K (xs.forM f) := by
  induction xs with
  | nil => exact failsIn_ok _
  | cons x xs ih =>
    obtain ⟨hx, hxs⟩ := List.forall_mem_cons.1 hf
    exact hx.bind fun _ _ => ih hxs

end Outcome

open Outcome

/-! ### Columns that are read -/

namespace Operand

/-- The columns that an operand reads. -/
inductive Reads : Operand → Identifier → Prop
  | column (i : Identifier) : Reads (.column i) i
  | operand {c : Call} {text label : String} {os : List Operand} {x : Operand} {i : Identifier}
      (hx : x ∈ os) (hstar : c.operator.isAggregate = true → x.isStar = false) (hi : x.Reads i) :
      Reads (.apply c text label os) i

end Operand

variable {s : Scope} {K : FailureClass}

/-- Whether a column is found, or is not in a way of the class. -/
def Scope.Knows (s : Scope) (K : FailureClass) (i : Identifier) : Prop := (s.owner i).FailsIn K

namespace Operand

variable {o : Operand}

/-- Every column that an operand reads is known. -/
def Known (s : Scope) (K : FailureClass) (o : Operand) : Prop := ∀ i, o.Reads i → s.Knows K i

lemma Known.of_operand {c : Call} {text label : String} {os : List Operand}
    (h : Known s K (.apply c text label os)) {x : Operand} (hx : x ∈ os)
    (hstar : c.operator.isAggregate = true → x.isStar = false) : x.Known s K :=
  fun i hi => h i (.operand hx hstar hi)

/-- Where every column that an operand reads is found, it fails over no name. -/
theorem Raises.has {e : Failure} (h : Raises s o e) (ho : o.Known s K) : K.Has e := by
  induction h with
  | @unknown s i e h => exact ho i (.column i) e h
  | operand _ ha hx _ ih => exact ih (ho.of_operand hx (by simp [ha]))
  | argument _ _ hx hstar _ ih => exact ih (ho.of_operand hx fun _ => hstar)
  | _ => exact K.plain rfl

lemma failsIn_value (h : o.Known s K) : (o.value s).FailsIn K :=
  fun e he => (raises_value s o e he).has h

lemma failsIn_filter (h : o.Known s K) : (o.filter s).FailsIn K :=
  fun e he => (raises_filter s o e he).has h

lemma failsIn_type (h : o.Known s K) : (o.type s).FailsIn K := by
  refine (failsOnly_type s o).mono ?_
  rintro e ⟨i, rfl, he⟩
  exact h i (.column i) e he

end Operand

/-! ### Expressions, items and keys -/

namespace Node

lemma mem_parts_self (n : Node) : n ∈ n.parts := by
  cases n <;> simp [parts]

/-- Whether the parts of an expression have texts, or lack them in a way of the class. -/
def Spells (K : FailureClass) (n : Node) : Prop := ∀ m ∈ n.parts, (Operand.textOf m).FailsIn K

lemma Spells.operands {c : Call} {ns : List Node} (h : (Node.call c ns).Spells K)
    (hc : c.operator.family ≠ .unsupported) : ∀ n ∈ ns, n.Spells K := by
  intro n hn m hm
  have hquery : c.operator ≠ .scalarQuery := fun hquery => hc (by rw [hquery]; rfl)
  refine h m ?_
  rw [parts, if_neg hquery, partsEach_eq_flatMap]
  exact List.mem_cons_of_mem _ (List.mem_flatMap.2 ⟨n, hn, hm⟩)

end Node

namespace Operand

mutual
lemma failsIn_ofNode {n : Node} (h : n.Spells K) : (ofNode n).FailsIn K := by
  cases n with
  | identifier | literal | typeSpec => exact failsIn_ok _
  | call c ns =>
    have htext := h _ (Node.mem_parts_self _)
    rw [ofNode]
    split
    · exact (failsIn_ok _).bind fun _ _ => htext.bind fun _ _ => failsIn_ok _
    · next hfamily =>
      exact (failsIn_ofNodes (h.operands hfamily)).bind fun _ _ =>
        htext.bind fun _ _ => failsIn_ok _
  | _ => exact failsIn_fault (by rfl)

lemma failsIn_ofNodes {ns : List Node} (h : ∀ n ∈ ns, n.Spells K) : (ofNodes ns).FailsIn K := by
  cases ns with
  | nil => exact failsIn_ok _
  | cons n ns =>
    obtain ⟨hn, hns⟩ := List.forall_mem_cons.1 h
    exact (failsIn_ofNode hn).bind fun _ _ => (failsIn_ofNodes hns).bind fun _ _ => failsIn_ok _
end

lemma failsIn_name (o : Operand) : o.name.FailsIn K := by
  cases o with
  | column | constant | apply => exact failsIn_ok _
  | _ => exact failsIn_fault (by rfl)

/-- The name of a call as a result column is none that it reads. -/
lemma Known.rename {o : Operand} (h : o.Known s K) (label : String) : (o.rename label).Known s K := by
  cases o with
  | apply c text label os =>
    rintro i ⟨⟩
    exact h i (.operand ‹_› ‹_› ‹_›)
  | _ => exact h

end Operand

/-- Every column that an expression reads is known, and the parts of the expression have texts. -/
structure Node.Known (s : Scope) (K : FailureClass) (n : Node) : Prop where
  spells : n.Spells K
  operand {o : Operand} (ho : Operand.ofNode n = .ok o) : o.Known s K

/-- A select item is known if its expression is. -/
structure Node.KnownItem (s : Scope) (K : FailureClass) (n : Node) : Prop where
  unnamed : (unnamed n).FailsIn K
  expression {e : Node} {a : Option String} (he : GraphSelect.unnamed n = .ok (e, a)) : e.Known s K

lemma failsIn_item {n : Node} (h : n.KnownItem s K) (used : List String) :
    (item s used n).FailsIn K := by
  rw [item_eq]
  refine h.unnamed.bind fun ⟨e, a⟩ he => ?_
  have hknown := h.expression he
  refine (Operand.failsIn_ofNode hknown.spells).bind fun o ho =>
    .bind ?_ fun _ _ => .bind ?_ fun _ _ => failsIn_ok _
  · unfold wantedName
    split
    · exact failsIn_ok _
    · exact Operand.failsIn_name o
  · unfold itemType
    split
    · exact failsIn_ok _
    · exact Operand.failsIn_type (hknown.operand ho)

lemma failsIn_itemsFrom {ns : List Node} (h : ∀ n ∈ ns, n.KnownItem s K)
    (used : List String) : (itemsFrom s used ns).FailsIn K := by
  induction ns generalizing used with
  | nil => exact failsIn_ok _
  | cons n ns ih =>
    obtain ⟨hn, hns⟩ := List.forall_mem_cons.1 h
    exact (failsIn_item hn used).bind fun _ _ => (ih hns _).bind fun _ _ => failsIn_ok _

lemma known_itemsFrom {used : List String} {ns : List Node} {items : List Item}
    (h : ∀ n ∈ ns, n.KnownItem s K) (hitems : itemsFrom s used ns = .ok items) :
    ∀ i ∈ items, i.operand.Known s K := by
  intro i hi
  obtain ⟨n, hn, used, hitem⟩ := exists_left_of_forall₂ (forall₂_itemsFrom hitems) i hi
  obtain ⟨e, o, he, ho, hoperand⟩ := item_cases hitem
  rw [hoperand]
  exact (((h n hn).expression he).operand ho).rename _

lemma failsIn_keyName {n : Node} {o : Operand} (hn : n.Known s K) (ho : o.Known s K) :
    (keyName s n o).FailsIn K := by
  cases o with
  | column i => exact FailsIn.map _ (ho i (.column i))
  | _ => exact hn.spells n n.mem_parts_self

lemma failsIn_groupKeysFrom {ns : List Node} (h : ∀ n ∈ ns, n.Known s K)
    (keys : List (String × Steps)) : (groupKeysFrom s keys ns).FailsIn K := by
  induction ns generalizing keys with
  | nil => exact failsIn_ok _
  | cons n ns ih =>
    obtain ⟨hn, hns⟩ := List.forall_mem_cons.1 h
    rw [groupKeysFrom]
    refine (Operand.failsIn_ofNode hn.spells).bind fun o ho =>
      (failsIn_keyName hn (hn.operand ho)).bind fun name _ => ?_
    split
    · exact ih hns keys
    · exact (Operand.failsIn_value (hn.operand ho)).bind fun _ _ => ih hns _

/-! ### Tables -/

lemma failsIn_joinColumns (condition : Option Node) (name : String) :
    (joinColumns condition name).FailsIn K := by
  unfold joinColumns
  repeat' split
  all_goals first | exact failsIn_ok _ | exact failsIn_fault rfl

lemma failsIn_walk (c : Catalog) (a b : String) (i j : Option String) :
    (c.walk a b i j).FailsIn K := by
  unfold Catalog.walk
  split
  · exact failsIn_ok _
  · exact failsIn_fault rfl

lemma failsIn_tableSteps {t : TableRef} (htable : (s.catalog.table t.name).FailsIn K)
    (hbind : ∀ table, s.catalog.table t.name = .ok table → (s.bind t.binding table).FailsIn K) :
    (tableSteps s t).FailsIn K :=
  htable.bind fun table h => (hbind table h).bind fun _ _ => failsIn_ok _

/-- A table is joined, or is not over what a traversal cannot do, if it is in the catalog, can be
bound, and is joined to one that is bound. -/
lemma failsIn_joinSteps {t : TableRef} {condition : Option Node}
    (htable : (s.catalog.table t.name).FailsIn K)
    (hbind : ∀ table, s.catalog.table t.name = .ok table → (s.bind t.binding table).FailsIn K)
    (hold : ∀ old new, joinColumns condition t.binding = .ok (old, new) →
      (s.binding (old.names.headD "")).FailsIn K) : (joinSteps s t condition).FailsIn K := by
  refine htable.bind fun table h => (failsIn_joinColumns condition _).bind fun ⟨old, new⟩ hcolumns =>
    (hold old new hcolumns).bind fun b _ => ?_
  dsimp only
  split
  · exact failsIn_fault rfl
  · exact (failsIn_walk _ _ _ _ _).bind fun w _ => (hbind table h).bind fun _ _ => failsIn_ok _

/-! ### Plans -/

/-- What is known of the names in a query by the tables of a row. The tables of its `FROM` clause
are left out. -/
structure Select.Known (q : Select) (row : Scope) (K : FailureClass) : Prop where
  filter : ∀ n ∈ q.filter, n.Known row K
  items : ∀ n ∈ q.items, n.KnownItem row K
  groupBy : ∀ n ∈ q.groupBy, n.Known row K
  having : ∀ n ∈ q.having, n.Known row K
  orderBy : ∀ items, itemsFrom row [] q.items = .ok items → ∀ k ∈ q.orderBy,
    (sortOperand items k.expression).FailsIn K ∧
      ∀ o, sortOperand items k.expression = .ok o → o.Known row K

lemma failsIn_conditionSteps {clause : String} {n : Option Node}
    (h : ∀ m ∈ n, m.Known s K) : (conditionSteps s clause n).FailsIn K := by
  cases n with
  | none => exact failsIn_ok _
  | some n =>
    exact ((Operand.failsIn_ofNode (h n rfl).spells).bind fun o ho =>
      Operand.failsIn_filter ((h n rfl).operand ho)).inClause clause

lemma failsIn_groupSteps {q : Select} (h : ∀ n ∈ q.groupBy, n.Known s K) :
    (groupSteps s q).FailsIn K := by
  unfold groupSteps
  split
  · exact ((failsIn_groupKeysFrom h []).bind fun _ _ => failsIn_ok _).inClause _
  · exact failsIn_ok _

lemma failsIn_orderSteps {items : List Item} {keys : List (SortKey Node)}
    (h : ∀ k ∈ keys, (sortOperand items k.expression).FailsIn K ∧
      ∀ o, sortOperand items k.expression = .ok o → o.Known s K) :
    (orderSteps s items keys).FailsIn K := by
  unfold orderSteps
  split
  · exact failsIn_ok _
  · refine (FailsIn.mapM fun k hk => ?_).bind fun _ _ => failsIn_ok _
    exact (h k hk).1.bind fun o ho =>
      (Operand.failsIn_value ((h k hk).2 o ho)).bind fun _ _ => failsIn_ok _

lemma failsIn_projectionSteps {items : List Item} (h : ∀ i ∈ items, i.operand.Known s K) :
    (projectionSteps s items).FailsIn K :=
  (FailsIn.mapM fun i hi => Operand.failsIn_value (h i hi)).bind fun _ _ => failsIn_ok _

/-- Columns are known of a group if they are known of a row, for both have the same tables. -/
lemma known_of_groupSteps {row result : Scope} {q : Select} {v : Steps}
    (h : groupSteps row q = .ok (result, v)) : Operand.Known result = Operand.Known row := by
  unfold groupSteps at h
  split at h
  · obtain ⟨keys, -, h⟩ := Outcome.bind_eq_ok.1 (Outcome.inClause_eq_ok.1 h)
    cases h
    rfl
  · cases h
    rfl

/-- **A query whose columns are known has a plan, or none for a reason of the class.** -/
theorem failsIn_plan {c : Catalog} {source : Option String} {maxRows : Option Int} {q : Select}
    (hsource : ∀ n, q.source = some n → (sourceSteps (.initial c) n).FailsIn K)
    (hrow : ∀ n row v, q.source = some n → sourceSteps (.initial c) n = .ok (row, v) →
      q.Known row K) : (plan c source maxRows q).FailsIn K := by
  cases ho : q.offset with
  | some o =>
    simp only [plan, ho]
    exact failsIn_fault (by rfl)
  | none =>
    cases hn : q.source with
    | none =>
      simp only [plan, ho, hn]
      exact failsIn_fault (by rfl)
    | some n =>
      rw [plan_of_source ho hn]
      refine ((hsource n hn).inClause _).bind fun x hrow' => ?_
      obtain ⟨row, v⟩ := x
      have hq := hrow n row v hn (inClause_eq_ok.1 hrow')
      refine (failsIn_conditionSteps hq.filter).bind fun _ _ =>
        ((failsIn_itemsFrom hq.items []).inClause _).bind fun items hitems =>
        (failsIn_groupSteps hq.groupBy).bind fun x hresult => ?_
      obtain ⟨result, v⟩ := x
      have hitems := inClause_eq_ok.1 hitems
      have hknown := known_of_groupSteps hresult
      refine (failsIn_conditionSteps fun n hn => ⟨(hq.having n hn).spells, fun ho => ?_⟩).bind fun _ _ =>
        ((failsIn_orderSteps fun k hk => ?_).inClause _).bind fun _ _ =>
        ((failsIn_projectionSteps fun i hi => ?_).inClause _).bind fun _ _ => failsIn_ok _
      · exact hknown ▸ (hq.having n hn).operand ho
      · exact hknown ▸ hq.orderBy items hitems k hk
      · exact hknown ▸ known_itemsFrom hq.items hitems i hi

end GraphSelect
