import GraphSelect.Proofs.Refusals
import GraphSelect.Proofs.Resolved

/-!
An entry of an ordering that is a select item, by its place, by its name or by its expression.

A place and a name find an item that has been made already and carries a name of its own, while an
expression is taken anew. The name of an operand has no part in its value, so all three are the same
value. That an expression with an aggregate asks for groups changes nothing, since the select item
asks for them as well.
-/

namespace GraphSelect

namespace Select

/-- The query with another expression at one place of its ordering. -/
def sortedBy (q : Select) (p : Nat) (n : Node) : Select :=
  { q with orderBy := q.orderBy.modify p fun key => { key with expression := n } }

end Select

/-- The number that stands for a select item in an ordering. -/
def ordinal (k : Nat) : Node :=
  .literal ⟨.int (k + 1), .integer⟩

/-! ### Values to order by -/

section

variable {s : Scope} {items : List Item} {n n' : Node} {p : Nat}

/-- The value that an entry of an ordering is ordered by. -/
def sortValue (s : Scope) (items : List Item) (n : Node) : Outcome Steps := do
  let operand ← sortOperand items n
  operand.value s

lemma sortStep_eq (s : Scope) (items : List Item) (n : Node) (descending : Bool) :
    sortStep s items ⟨n, descending⟩ = (sortValue s items n).map fun value =>
      .byOrdered (orNull value) (if descending then .descending else .ascending) := by
  unfold sortStep sortValue
  cases sortOperand items n with
  | error e => rfl
  | ok o => cases h : o.value s <;> simp [h]

/-- Orderings by the same values have the same steps. -/
lemma orderSteps_congr (keys : List (SortKey Node))
    (h : sortValue s items n = sortValue s items n') :
    orderSteps s items (keys.modify p fun key => { key with expression := n }) =
      orderSteps s items (keys.modify p fun key => { key with expression := n' }) := by
  by_cases hp : p < keys.length
  · rw [List.modify_eq_take_cons_drop hp, List.modify_eq_take_cons_drop hp]
    simp [orderSteps, sortStep_eq, h]
  · rw [List.modify_eq_self (by omega), List.modify_eq_self (by omega)]

/-- Grouping is asked for alike if both entries ask for it, or a select item does. -/
lemma needsGrouping_sortedBy {q : Select} (h : n.containsAggregate = n'.containsAggregate ∨
    q.items.any Node.containsAggregate = true) :
    (q.sortedBy p n).needsGrouping = (q.sortedBy p n').needsGrouping := by
  unfold Select.needsGrouping Select.sortedBy
  rcases h with h | h
  · by_cases hp : p < q.orderBy.length
    · simp only [List.modify_eq_take_cons_drop hp, List.any_append, List.any_cons, h]
    · rw [List.modify_eq_self (by omega), List.modify_eq_self (by omega)]
  · simp [h]

/-- Queries that are ordered by the same values have the same plan. -/
lemma plan_sortedBy_congr {c : Catalog} {q : Select} (source : Option String)
    (maxRows : Option Int) (hagg : n.containsAggregate = n'.containsAggregate ∨
      q.items.any Node.containsAggregate = true)
    (hsort : ∀ row items, itemsFrom row [] q.items = .ok items →
      ∀ s, sortValue s items n = sortValue s items n') :
    plan c source maxRows (q.sortedBy p n) = plan c source maxRows (q.sortedBy p n') := by
  have hgroup (row : Scope) :
      groupSteps row (q.sortedBy p n) = groupSteps row (q.sortedBy p n') := by
    unfold groupSteps
    rw [needsGrouping_sortedBy hagg]
    rfl
  cases ho : q.offset with
  | some => simp [plan, Select.sortedBy, ho]
  | none =>
    cases hn : q.source with
    | none => simp [plan, Select.sortedBy, ho, hn]
    | some tables =>
      rw [plan_of_source (by exact ho) (by exact hn), plan_of_source (by exact ho) (by exact hn)]
      simp only [hgroup]
      refine bind_congr fun x => ?_
      obtain ⟨row, fromSteps⟩ := x
      refine bind_congr fun filter => Outcome.bind_congr_ok fun items hitems =>
        bind_congr fun x => ?_
      obtain ⟨result, grouping⟩ := x
      refine bind_congr fun having => ?_
      rw [Select.sortedBy, Select.sortedBy, orderSteps_congr q.orderBy
        (hsort row items (Outcome.inClause_eq_ok.1 hitems) result)]
      rfl

/-! ### Three ways to name a select item -/

variable {c : Catalog} {q r : Select} {k : Nat} {row : Scope} {named : List (String × Node)}

/-- A select item has the value of its expression. -/
lemma value_of_item {used : List String} {x : Item} (h : item row used n = .ok x) :
    (do let operand ← Operand.ofNode n.expression; operand.value s) = x.operand.value s := by
  obtain ⟨e, o, he, ho, hx⟩ := item_cases h
  rw [← expression_of_unnamed he, ho, hx, Operand.value_rename]
  rfl

lemma sortValue_of_item {x : Item} {m : Node} {used : List String} (h : item row used n = .ok x)
    (hm : sortOperand items m = .ok x.operand) :
    sortValue s items m = (do let operand ← Operand.ofNode n.expression; operand.value s) := by
  rw [value_of_item h, sortValue, hm]
  rfl

lemma sortValue_ordinal (hitems : itemsFrom row [] r.items = .ok items)
    (hn : r.items[k]? = some n) :
    sortValue s items (ordinal k) =
      (do let operand ← Operand.ofNode n.expression; operand.value s) := by
  have hrel := forall₂_itemsFrom hitems
  obtain ⟨hk, rfl⟩ := List.getElem?_eq_some_iff.1 hn
  obtain ⟨used, hx⟩ := hrel.get hk (hrel.length_eq ▸ hk)
  refine sortValue_of_item hx ?_
  simp only [ordinal, sortOperand, if_true, itemAt?_place]
  rw [List.getElem?_eq_getElem (hrel.length_eq ▸ hk)]
  rfl

/-- The last select item of a name. -/
lemma find?_of_last {name : String} (hn : r.items[k]? = some n) (hname : n.alias? = some name)
    (hlast : ∀ m ∈ r.items.drop (k + 1), m.alias? ≠ some name) :
    r.items.reverse.find? (·.alias? = some name) = some n := by
  obtain ⟨hk, rfl⟩ := List.getElem?_eq_some_iff.1 hn
  have hnone : (r.items.drop (k + 1)).reverse.find? (·.alias? = some name) = none := by
    simpa using hlast
  conv_lhs => rw [← List.take_append_drop k r.items, List.drop_eq_getElem_cons hk]
  rw [List.reverse_append, List.reverse_cons, List.append_assoc, List.find?_append, hnone]
  simp [hname]

lemma sortValue_name (hitems : itemsFrom row [] r.items = .ok items)
    (hnamed : namedItems r.items = .ok named) {name : String} {type : Option TypeName}
    (hn : named.lookup name = some n) :
    sortValue s items (.identifier ⟨[name], type⟩) =
      (do let operand ← Operand.ofNode n.expression; operand.value s) := by
  have hfound := foundAlike_items hitems hnamed name
  have hrel := forall₂_itemsFrom hitems
  rw [hn] at hfound
  obtain ⟨k, x, hn', hx', hx⟩ := hfound.exists_place
  obtain ⟨hk, rfl⟩ := List.getElem?_eq_some_iff.1 hn'
  obtain ⟨hk', rfl⟩ := List.getElem?_eq_some_iff.1 hx'
  obtain ⟨used, hitem⟩ := hrel.get hk hk'
  exact sortValue_of_item hitem (sortOperand_name rfl hx)

/-- An expression that is neither a place nor a name of a select item is ordered by as it is. -/
lemma sortValue_expression (hitems : itemsFrom row [] r.items = .ok items)
    (hnamed : namedItems r.items = .ok named)
    (hliteral : ∀ l, n = .literal l → l.type ≠ .integer)
    (hname : ∀ i, n = .identifier i → i.isSimple = true → named.lookup i.simple = none) :
    sortValue s items n = (do let operand ← Operand.ofNode n; operand.value s) := by
  have hoperand : sortOperand items n = Operand.ofNode n := by
    cases n with
    | identifier i =>
      refine sortOperand_column fun hi => ?_
      have hfound := foundAlike_items hitems hnamed i.simple
      rw [hname i rfl hi] at hfound
      exact hfound.eq_none
    | literal l =>
      rw [sortOperand, if_neg (hliteral l rfl)]
      rfl
    | _ => rfl
  rw [sortValue, hoperand]

lemma containsAggregate_expression (n : Node) (h : n.expression.containsAggregate = true) :
    n.containsAggregate = true := by
  unfold Node.expression at h
  split at h
  · split at h
    · next hf =>
      simp only [Node.containsAggregate, List.any_eq_true] at h ⊢
      obtain ⟨m, hm, hagg⟩ := h
      exact ⟨m, by simp [Node.parts, Node.partsEach, hf, hm], hagg⟩
    · exact h
  · exact h

/-! ### Resolving another entry -/

variable {ts : Tables} {count : Nat}

lemma resolveKeys_modify {keys keys' : List (SortKey Node)}
    (hkeys : resolveKeys c ts named count keys = .ok keys')
    (h : KeyResolves c ts named count n n') (p : Nat) :
    resolveKeys c ts named count (keys.modify p fun key => { key with expression := n }) =
      .ok (keys'.modify p fun key => { key with expression := n' }) := by
  induction keys generalizing keys' p with
  | nil =>
    cases hkeys
    rw [List.modify_nil, List.modify_nil]
    rfl
  | cons key keys ih =>
    obtain ⟨m, rest, rfl, hm, hrest⟩ := resolveKeys_cases hkeys
    cases p with
    | zero => exact resolveKeys_cons key.descending h hrest
    | succ p => exact resolveKeys_cons key.descending hm (ih hrest p)

lemma resolve_sortedBy (hr : resolveSelect c q = .ok r) (h : ∀ ts named, q.ResolvesTo c ts r →
      namedItems r.items = .ok named → KeyResolves c ts named r.items.length n n') :
    resolveSelect c (q.sortedBy p n) = .ok (r.sortedBy p n') := by
  obtain ⟨ts, named, hts, hnamed, hresolve⟩ := resolveSelect_orderBy hr
  obtain ⟨named', hnamed', horder⟩ := hts.orderBy
  obtain rfl : named = named' := Except.ok.inj (hnamed.symm.trans hnamed')
  rw [Select.sortedBy, hresolve, resolveKeys_modify horder (h ts named hts hnamed)]
  rfl

lemma keyResolves_ordinal (hk : k < count) :
    KeyResolves c ts named count (ordinal k) (ordinal k) :=
  .literal fun _ => isPlace_int.2 ⟨by omega, by omega⟩

/-- What a select item is made from resolves to itself where the item does. -/
lemma resolve_expression (h : resolve c ts n = .ok n) :
    resolve c ts n.expression = .ok n.expression := by
  unfold Node.expression
  split
  · next f m i =>
    split
    · next hf =>
      simp only [resolve, hf] at h
      obtain ⟨m', hm, heq⟩ := Outcome.bind_eq_ok.1 h
      simp only [Outcome.pure_eq, Except.ok.injEq, Node.call.injEq, List.cons.injEq] at heq
      exact heq.2.1 ▸ hm
    · exact h
  · exact h

/-- The items of a resolved query stay as they are. -/
lemma Select.IsWritten.isSettled_items (hq : q.IsWritten)
    (hc : ∀ t ∈ c.tables, ∀ col ∈ t.columns, col.name ≠ "*") (h : q.ResolvesTo c ts r) :
    ∀ n ∈ r.items, IsSettled c ts n := by
  obtain ⟨hitems, hsource, -⟩ := Select.isWritten_iff.1 hq
  have hts : ts.AreClear := by
    rcases h.source with ⟨-, -, rfl⟩ | ⟨n, n', hn, -, hn'⟩
    · exact Tables.areClear_nil
    · exact (settles_of_isWritten hc (hsource n hn) [] Tables.areClear_nil ts n' hn').1
  exact isSettled_of_resolveItems hts h.items fun n hn =>
    settles_of_isWritten hc (hitems n hn) ts hts

end

/-- **An entry of an ordering can be a select item by its place, by its name or by its expression.**
Whichever of them stands there, the query has the same plan, or fails for the same reason. The
expression may be no whole number and no name of a select item, and the name must not be given to a
later item. What is written so resolves to what is ordered by, unless the catalog has a column that
is named like a star. -/
theorem plan_sortedBy {c : Catalog} {text : String} {q r : Select} {n : Node} {k : Nat}
    (hq : Parser.parse text = .ok q) (hr : q.resolve c = .ok r) (hn : r.items[k]? = some n)
    (hliteral : ∀ l, n.expression = .literal l → l.type ≠ .integer)
    (hname : ∀ i, n.expression = .identifier i → i.isSimple = true → i.simple ∉ r.aliases)
    (p : Nat) :
    ((q.sortedBy p (ordinal k)).resolve c = .ok (r.sortedBy p (ordinal k)) ∧
      ∀ source maxRows, plan c source maxRows (r.sortedBy p (ordinal k)) =
        plan c source maxRows (r.sortedBy p n.expression)) ∧
    (∀ name, n.alias? = some name → (∀ m ∈ r.items.drop (k + 1), m.alias? ≠ some name) →
      (q.sortedBy p (.identifier ⟨[name], none⟩)).resolve c =
        .ok (r.sortedBy p (.identifier ⟨[name], some n.type⟩)) ∧
      ∀ type source maxRows, plan c source maxRows (r.sortedBy p (.identifier ⟨[name], type⟩)) =
        plan c source maxRows (r.sortedBy p n.expression)) ∧
    ((∀ t ∈ c.tables, ∀ col ∈ t.columns, col.name ≠ "*") →
      (q.sortedBy p n.expression).resolve c = .ok (r.sortedBy p n.expression)) := by
  obtain ⟨ts, named, hts, hnamed, -⟩ := resolveSelect_orderBy hr
  have hfree : ∀ i, n.expression = .identifier i → i.isSimple = true →
      named.lookup i.simple = none :=
    fun i hi hsimple => not_not.1 (mt (mem_aliases hnamed _).2 (hname i hi hsimple))
  have hmem : n ∈ r.items := List.mem_of_getElem? hn
  have hk : k < r.items.length := (List.getElem?_eq_some_iff.1 hn).1
  -- What asks for groups as an expression has asked for them as a select item.
  have hagg {m : Node} (hm : m.containsAggregate = false) :
      m.containsAggregate = n.expression.containsAggregate ∨
        r.items.any Node.containsAggregate = true := by
    cases h : n.expression.containsAggregate with
    | false => exact .inl hm
    | true => exact .inr (List.any_eq_true.2 ⟨n, hmem, containsAggregate_expression n h⟩)
  have hexpression {row : Scope} {items : List Item} (hitems : itemsFrom row [] r.items = .ok items)
      (s : Scope) := sortValue_expression (s := s) hitems hnamed hliteral hfree
  refine ⟨⟨resolve_sortedBy hr fun _ _ _ _ => keyResolves_ordinal hk, fun source maxRows => ?_⟩,
    fun name hname hlast => ⟨?_, fun type source maxRows => ?_⟩, fun hc => ?_⟩
  · exact plan_sortedBy_congr source maxRows (hagg rfl) fun row items hitems s =>
      (sortValue_ordinal hitems hn).trans (hexpression hitems s).symm
  · refine resolve_sortedBy hr fun ts' named' _ hnamed' => .name rfl ?_
    exact (lookup_namedItems hnamed' name).trans (find?_of_last hn hname hlast)
  · have hlookup := (lookup_namedItems hnamed name).trans (find?_of_last hn hname hlast)
    exact plan_sortedBy_congr source maxRows (hagg rfl) fun row items hitems s =>
      (sortValue_name hitems hnamed hlookup).trans (hexpression hitems s).symm
  · refine resolve_sortedBy hr fun ts' named' hts' hnamed' => ?_
    obtain ⟨-, hsettled⟩ := (Parser.isWritten_of_parse hq).isSettled_items hc hts' n hmem
    obtain rfl : named = named' := Except.ok.inj (hnamed.symm.trans hnamed')
    cases he : n.expression with
    | literal l => exact .literal fun hl => absurd hl (hliteral l he)
    | _ => exact he ▸ .expression hfree (by simp [he]) (resolve_expression hsettled)

namespace People

/-- Its entry can be `2`, `n` or `COUNT(*)`. -/
def byCount : String := "SELECT age, COUNT(*) AS n FROM person GROUP BY age ORDER BY age DESC"

/-- Whether an item is named `n`, and is neither a column nor a constant. -/
def isNamedCall (n : Node) : Bool :=
  n.alias? = some "n" && match n.expression with
    | .call _ _ => true
    | _ => false

theorem plan_byCount : ∃ q r n, Parser.parse byCount = .ok q ∧ q.resolve catalog = .ok r ∧
    r.items[1]? = some n ∧ n.containsAggregate = true ∧ r.orderBy.length = 1 ∧
    (plan catalog (some "g") none (r.sortedBy 0 (ordinal 1))).isOk = true ∧
    plan catalog (some "g") none (r.sortedBy 0 (ordinal 1)) =
      plan catalog (some "g") none (r.sortedBy 0 n.expression) ∧
    plan catalog (some "g") none (r.sortedBy 0 (.identifier ⟨["n"], none⟩)) =
      plan catalog (some "g") none (r.sortedBy 0 n.expression) := by
  obtain ⟨q, r, hq, hr, hcheck⟩ := exists_of_resolvesWith (show resolvesWith byCount catalog
      (fun _ r => r.items.length = 2 && r.orderBy.length = 1 &&
        r.items[1]?.any (fun n => n.containsAggregate && isNamedCall n) &&
        (plan catalog (some "g") none (r.sortedBy 0 (ordinal 1))).isOk) by decide +kernel)
  simp only [Bool.and_eq_true, decide_eq_true_eq, Option.any_eq_true] at hcheck
  obtain ⟨⟨⟨hlength, horder⟩, n, hn, hagg, hcall⟩, hok⟩ := hcheck
  simp only [isNamedCall, Bool.and_eq_true, decide_eq_true_eq] at hcall
  obtain ⟨hname, hcall⟩ := hcall
  obtain ⟨⟨-, hplace⟩, hnamed, -⟩ := plan_sortedBy hq hr hn
    (fun l hl => by simp [hl] at hcall) (fun i hi => by simp [hi] at hcall) 0
  have hlast : ∀ m ∈ r.items.drop (1 + 1), m.alias? ≠ some "n" := by
    simp [List.drop_of_length_le hlength.le]
  exact ⟨q, r, n, hq, hr, hn, hagg, horder, hok, hplace _ _, (hnamed "n" hname hlast).2 _ _ _⟩

end People

end GraphSelect
