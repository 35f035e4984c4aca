import GraphSelect.Proofs.SameNames
import GraphSelect.Proofs.WellScoped
import GraphSelect.Proofs.Wording

/-!
What is read where rows are grouped.

A group has its keys and its rows, but no columns of its own. So an expression at a group reads a
column inside an aggregate, which goes back to the rows, or as one of the keys. No pass over the
query checks this: every operator reads its operands in the scope it is given, and a column that
cannot be read there has no steps. Aggregates in turn have steps at a group only, so there are none
where rows are filtered and grouped, and none inside others.
-/

namespace GraphSelect

/-! ### What has steps -/

namespace Operand

/-- How an operand that has steps in a scope is built. The type of a cast has none and needs none. -/
inductive Planned : Scope → Operand → Prop
  | column {s : Scope} {i : Identifier} {v : Steps} (h : s.columnSteps i = .ok v) :
      Planned s (.column i)
  | constant (s : Scope) (l : Literal) : Planned s (.constant l)
  | target (s : Scope) (t : TypeSpec) : Planned s (.target t)
  | key {s : Scope} {c : Call} {text label : String} {os : List Operand}
      (h : s.isGroupKey text = true) : Planned s (.apply c text label os)
  | count {s : Scope} {c : Call} {text label : String} {i : Identifier}
      (hc : c.operator.isAggregate = true) (hs : s.isRowContext = false) :
      Planned s (.apply c text label [.column i])
  | aggregate {s : Scope} {c : Call} {text label : String} {x : Operand}
      (hc : c.operator.isAggregate = true) (hs : s.isRowContext = false)
      (hx : Planned s.aggregated x) : Planned s (.apply c text label [x])
  /-- Any other operator reads its operands where it stands itself. -/
  | call {s : Scope} {c : Call} {text label : String} {os : List Operand}
      (hc : c.operator.isRowwise = true) (hos : ∀ x ∈ os, Planned s x) :
      Planned s (.apply c text label os)

lemma Becomes.planned {use : Use} {s : Scope} {o : Operand} {v : Steps}
    (h : Becomes use s o v) (huse : use ≠ .guard) : Planned s o := by
  have hgroup {s : Scope} (hs : s.isGrouped = true) (ha : s.inAggregate = false) :
      s.isRowContext = false := by simp [Scope.isRowContext, hs, ha]
  have hfilter {s : Scope} {i : Identifier} {f : String → Step} {v : Steps}
      (hs : s.isRowContext = true) (h : columnFilter s i f = .ok v) : Planned s (.column i) := by
    obtain ⟨w, hw⟩ := columnFilter_eq_ok hs h
    exact .column hw
  have hone {s : Scope} {c : Call} {text label : String} {x : Operand}
      (hc : c.operator.isRowwise = true) (hx : Planned s x) : Planned s (.apply c text label [x]) :=
    .call hc (by simpa using hx)
  have htwo {s : Scope} {c : Call} {text label : String} {x y : Operand}
      (hc : c.operator.isRowwise = true) (hx : Planned s x) (hy : Planned s y) :
      Planned s (.apply c text label [x, y]) :=
    .call hc (by simpa using ⟨hx, hy⟩)
  have hagainst {s : Scope} {c : Call} {text label : String} {x : Operand} {l : Literal}
      {p q : Comparison} {os : List Operand} (hc : c.operator.isRowwise = true)
      (hos : Against x l p os q) (hx : Planned s x) : Planned s (.apply c text label os) := by
    cases hos with
    | right => exact htwo hc hx (.constant s l)
    | left => exact htwo hc (.constant s l) hx
  induction h with
  | column h => exact .column h
  | constant l => exact .constant _ l
  | isNull hc _ ih | isNotNull hc _ ih | negate hc _ ih | not hc _ _ _ ih =>
    exact hone (by rw [hc]; rfl) (ih (by simp))
  | count hc hs ha => exact .count (by rw [hc]; rfl) (hgroup hs ha)
  | aggregate hc hs ha _ ih => exact .aggregate (by rw [hc]; rfl) (hgroup hs ha) (ih (by simp))
  | compareColumn hc hos hs h => exact hagainst (by rw [hc]; rfl) hos (hfilter hs h)
  | compareConstant hc hos _ ih => exact hagainst (by rw [hc]; rfl) hos (ih (by simp))
  | compare hc _ _ ihx ihy | and hc _ _ ihx ihy | or hc _ _ ihx ihy | arithmetic hc _ _ ihx ihy =>
    exact htwo (by rw [hc]; rfl) (ihx (by simp)) (ihy (by simp))
  | cast hc _ _ _ ih => exact htwo (by rw [hc]; rfl) (ih (by simp)) (.target _ _)
  | key h => exact .key h
  | truth _ ih | read _ ih | condition _ ih | holds _ ih | present _ ih | absent _ ih =>
    exact ih (by simp)
  | has hs h | hasNot hs h => exact hfilter hs h
  | guardColumn | guardNone | guardMore | guardSkip => exact absurd rfl huse

variable {s : Scope} {o : Operand} {n : Node} {c : Call} {text label : String} {os : List Operand}

lemma planned_of_value {v : Steps} (h : o.value s = .ok v) : Planned s o :=
  (becomes_of_value h).planned (by simp)

lemma planned_of_filter {v : Steps} (h : o.filter s = .ok v) : Planned s o :=
  (becomes_of_filter h).planned (by simp)

lemma Planned.of_rename (h : Planned s (o.rename label)) : Planned s o := by
  cases o with
  | apply =>
    cases h with
    | key h => exact .key h
    | count hc hs => exact .count hc hs
    | aggregate hc hs hx => exact .aggregate hc hs hx
    | call hc hos => exact .call hc hos
  | _ => exact h

lemma ofNode_eq_target {t : TypeSpec} (h : ofNode n = .ok (.target t)) : n = .typeSpec t := by
  cases n with
  | typeSpec =>
    cases h
    rfl
  | call c ns =>
    rw [ofNode_call] at h
    obtain ⟨os, -, h⟩ := Outcome.bind_eq_ok.1 h
    obtain ⟨text, -, h⟩ := Outcome.bind_eq_ok.1 h
    cases h
  | _ => simp [ofNode] at h

lemma ofNode_ne_raw {m : Node} : ofNode n ≠ .ok (.raw m) := by
  intro h
  cases n with
  | call c ns =>
    rw [ofNode_call] at h
    obtain ⟨os, -, h⟩ := Outcome.bind_eq_ok.1 h
    obtain ⟨text, -, h⟩ := Outcome.bind_eq_ok.1 h
    cases h
  | _ => simp [ofNode] at h

/-- The operands of an operator that has steps are those of its node. -/
lemma exists_nodes (hc : c.operator.family ≠ .unsupported)
    (h : ofNode n = .ok (.apply c text label os)) :
    ∃ ns, n = .call c ns ∧ n.sql? = some text ∧
      List.Forall₂ (fun n o => ofNode n = .ok o) ns os := by
  obtain ⟨ns, rfl, hos, htext⟩ := ofNode_eq_apply h
  rw [ofCall, if_neg hc] at hos
  exact ⟨ns, rfl, textOf_eq_ok.1 htext, forall₂_ofNodes hos⟩

end Operand

lemma Operator.isRowwise_cases {op : Operator} (h : op.isRowwise = true) :
    op.family ≠ .unsupported ∧ op.isAggregate = false := by
  cases op <;> simp_all [isRowwise, family, isAggregate]

lemma Operator.family_of_isAggregate {op : Operator} (h : op.isAggregate = true) :
    op.family ≠ .unsupported := by
  cases op <;> simp_all [family, isAggregate]

lemma Operator.ne_scalarQuery {op : Operator} (h : op.family ≠ .unsupported) :
    op ≠ .scalarQuery := by
  rintro rfl
  exact h rfl

/-! ### Aggregates where there are rows -/

namespace Operand

variable {s : Scope} {o : Operand} {n : Node}

/-- A row has no aggregates. -/
lemma Planned.containsAggregate_eq (h : Planned s o) (hs : s.isRowContext = true)
    (hn : ofNode n = .ok o) : n.containsAggregate = false := by
  induction h generalizing n with
  | column =>
    obtain rfl := ofNode_eq_column hn
    rfl
  | constant =>
    obtain rfl := ofNode_eq_constant hn
    rfl
  | target =>
    obtain rfl := ofNode_eq_target hn
    rfl
  | key h => simp [Scope.isGroupKey_of_isRowContext hs] at h
  | count _ h | aggregate _ h => simp [hs] at h
  | call hc _ ih =>
    obtain ⟨hfamily, hagg⟩ := Operator.isRowwise_cases hc
    obtain ⟨ns, rfl, -, hns⟩ := exists_nodes hfamily hn
    rw [containsAggregate_call (Operator.ne_scalarQuery hfamily), hagg, Bool.false_or,
      List.any_eq_false]
    intro m hm
    obtain ⟨x, hx, hmx⟩ := exists_right_of_forall₂ hns m hm
    exact Bool.eq_false_iff.1 (ih x hx hs hmx)

end Operand

/-! ### Texts of resolved expressions -/

/-- Whether a column has plain names and is spelled as its owner has it. -/
structure Scope.IsPlain (s : Scope) (i : Identifier) : Prop where
  names : i.isPlain = true
  spelled : ∀ b col, s.owner i = .ok (b, col) →
    i.names = [b.name, col.name] ∧ isPlainName col.property = true

/-- An expression with plain names, or the type of a cast, as it stands in a resolved query. -/
structure Node.IsPlain (s : Scope) (n : Node) : Prop where
  written : n.IsWritten .expression ∨ ∃ t, n = .typeSpec t
  columns : ∀ i ∈ n.references, s.IsPlain i
  functions : n.hasQuotedName = false

namespace Node.IsPlain

variable {s : Scope} {n : Node} {c : Call} {ns : List Node}

lemma isShown (h : n.IsPlain s) : n.IsShown := by
  rcases h.written with hn | ⟨t, rfl⟩
  · exact isShown_of_isWritten hn rfl (fun i hi => (h.columns i hi).names) h.functions
  · intro text ht
    cases ht
    exact t.quiet_text.shows

lemma isSpelled {l : Literal} (h : (Node.literal l).IsPlain s) : l.IsSpelled := by
  rcases h.written with hl | ⟨t, ht⟩
  · cases hl
    assumption
  · cases ht

lemma operands (h : (Node.call c ns).IsPlain s) (hc : c.operator.family ≠ .unsupported) :
    ∀ m ∈ ns, m.IsPlain s := by
  have hquery := Operator.ne_scalarQuery hc
  have hname : c.operator ≠ .rename := fun hname => hc (by rw [hname]; rfl)
  have hwritten : ∀ m ∈ ns, m.IsWritten .expression ∨ ∃ t, m = .typeSpec t := by
    rcases h.written with h | ⟨t, ht⟩
    · cases h with
      | infixed _ hx hy => simpa using ⟨.inl hx, .inl hy⟩
      | prefixed _ hx | test _ hx | cast _ hx => simpa using .inl hx
      | function _ _ hxs => exact fun x hx => .inl (hxs x hx)
      | within hop => exact absurd (by rw [hop]; rfl) hc
      | scalarQuery hop => exact absurd hop hquery
    · cases ht
  have hcolumns := h.columns
  have hfunctions := h.functions
  rw [Node.references_call hquery hname] at hcolumns
  rw [Node.hasQuotedName, any_parts_call _ hquery, Bool.or_eq_false_iff, List.any_eq_false]
    at hfunctions
  exact fun m hm => ⟨hwritten m hm, fun i hi => hcolumns i (List.mem_flatMap.2 ⟨m, hm, hi⟩),
    Bool.eq_false_iff.2 (hfunctions.2 m hm)⟩

end Node.IsPlain

namespace Scope.IsPlain

variable {s : Scope} {i : Identifier} {b : Binding} {col : Column}

lemma isPlainName (h : s.IsPlain i) (hi : s.owner i = .ok (b, col)) :
    GraphSelect.isPlainName b.name ∧ GraphSelect.isPlainName col.name := by
  obtain ⟨hstar, -, -⟩ := Scope.owner_cases hi
  have hnames := h.names
  simpa [Identifier.isPlain, hstar, (h.spelled b col hi).1] using hnames

lemma quiet_text (h : s.IsPlain i) (hi : s.owner i = .ok (b, col)) : Quiet i.text := by
  have htext : i.text = Scope.groupKey b.name col.name := by
    simp [Identifier.text, (h.spelled b col hi).1, Scope.groupKey, String.intercalate_cons_cons]
  rw [htext]
  exact Scope.quiet_groupKey (h.isPlainName hi).1 (h.isPlainName hi).2

lemma quiet_groupKey (h : s.IsPlain i) (hi : s.owner i = .ok (b, col)) :
    Quiet (Scope.groupKey b.name col.property) :=
  Scope.quiet_groupKey (h.isPlainName hi).1 (h.spelled b col hi).2

end Scope.IsPlain

lemma Scope.owner_of_columnSteps {s : Scope} {i : Identifier} {v : Steps}
    (h : s.columnSteps i = .ok v) : ∃ b col, s.owner i = .ok (b, col) := by
  obtain ⟨⟨b, col⟩, howner, -⟩ := Outcome.bind_eq_ok.1 h
  exact ⟨b, col, howner⟩

/-- The texts of what can be read from a row show neither an aggregate nor a query. -/
lemma Operand.Planned.quiet {s : Scope} {o : Operand} {n : Node} {text : String}
    (h : Planned s o) (hs : s.isRowContext = true) (hn : ofNode n = .ok o) (hplain : n.IsPlain s)
    (htext : n.sql? = some text) : Quiet text := by
  induction h generalizing n text with
  | column h =>
    obtain rfl := ofNode_eq_column hn
    cases htext
    obtain ⟨b, col, hi⟩ := Scope.owner_of_columnSteps h
    exact (hplain.columns _ (by simp [Node.references])).quiet_text hi
  | constant =>
    obtain rfl := ofNode_eq_constant hn
    cases htext
    exact hplain.isSpelled.quiet
  | target _ t =>
    obtain rfl := ofNode_eq_target hn
    cases htext
    exact t.quiet_text
  | key h => simp [Scope.isGroupKey_of_isRowContext hs] at h
  | count _ h | aggregate _ h => simp [hs] at h
  | call hc _ ih =>
    obtain ⟨hfamily, -⟩ := Operator.isRowwise_cases hc
    obtain ⟨ns, rfl, -, hns⟩ := exists_nodes hfamily hn
    refine quiet_call hc (fun m hm t ht => ?_) htext
    obtain ⟨x, hx, hmx⟩ := exists_right_of_forall₂ hns m hm
    exact ih x hx hs hmx (hplain.operands hfamily m hm) ht

/-! ### Entries of a grouping -/

section

variable {s : Scope} {ns : List Node} {keys : List (String × Steps)}

lemma quiet_keys (hs : s.isRowContext = true) (hns : ∀ n ∈ ns, n.IsPlain s)
    (h : groupKeysFrom s [] ns = .ok keys) : ∀ name ∈ keys.map (·.1), Quiet name := by
  intro name hname
  obtain ⟨k, hk, rfl⟩ := List.mem_map.1 hname
  obtain ⟨n, o, hkey⟩ := (exists_isKey h hk).resolve_left List.not_mem_nil
  have hplain := hns n hkey.mem
  have hname := hkey.name
  unfold keyName at hname
  split at hname
  · next i =>
    obtain rfl := Operand.ofNode_eq_column hkey.operand
    obtain ⟨⟨b, col⟩, hi, hname⟩ := Outcome.map_eq_ok.1 hname
    rw [← hname]
    exact (hplain.columns i (by simp [Node.references])).quiet_groupKey hi
  · exact (Operand.planned_of_value hkey.value).quiet hs hkey.operand hplain
      (Operand.textOf_eq_ok.1 hname)

/-- Rows are grouped by no aggregate. -/
lemma containsAggregate_groupBy (hs : s.isRowContext = true) (hns : ∀ n ∈ ns, n.IsPlain s)
    (h : groupKeysFrom s [] ns = .ok keys) : ∀ n ∈ ns, n.containsAggregate = false := by
  intro n hn
  obtain ⟨o, name, ho, hname, hmem⟩ := (exists_keyName h).2 n hn
  unfold keyName at hname
  split at hname
  · obtain rfl := Operand.ofNode_eq_column ho
    rfl
  · have hshown := (hns n hn).isShown name (Operand.textOf_eq_ok.1 hname)
    rw [← Bool.not_eq_true]
    intro hagg
    exact (hagg ▸ hshown).not_quiet (quiet_keys hs hns h name hmem)

end

/-! ### Aggregates at groups -/

/-- Inside an aggregate rows are read. -/
lemma Scope.isRowContext_aggregated (s : Scope) : s.aggregated.isRowContext = true := by
  simp [isRowContext, aggregated]

/-- Whether an aggregate occurs in the arguments of another. -/
def Node.nestsAggregates (n : Node) : Bool :=
  n.parts.any fun
    | .call c ns => c.operator.isAggregate && ns.any containsAggregate
    | _ => false

lemma nestsAggregates_call {c : Call} (hc : c.operator ≠ .scalarQuery) (ns : List Node) :
    (Node.call c ns).nestsAggregates =
      (c.operator.isAggregate && ns.any Node.containsAggregate || ns.any Node.nestsAggregates) :=
  any_parts_call _ hc ns

lemma nestsAggregates_of_containsAggregate {n : Node} (h : n.containsAggregate = false) :
    n.nestsAggregates = false := by
  refine List.any_eq_false.2 fun m hm => ?_
  have := List.any_eq_false.1 h m hm
  cases m <;> simp_all [Node.isAggregate]

/-- Where something has steps no aggregate occurs in the arguments of another. -/
lemma Operand.Planned.nestsAggregates_eq {s r : Scope} {o : Operand} {n : Node} (h : Planned s o)
    (hkeys : ∀ text, s.isGroupKey text = true → Quiet text) (hn : ofNode n = .ok o)
    (hplain : n.IsPlain r) : n.nestsAggregates = false := by
  have hargument {c : Call} {ns : List Node} (hc : c.operator.isAggregate = true)
      (hns : ∀ m ∈ ns, m.containsAggregate = false) : (Node.call c ns).nestsAggregates = false := by
    rw [nestsAggregates_call (Operator.ne_scalarQuery (Operator.family_of_isAggregate hc)),
      Bool.or_eq_false_iff, Bool.and_eq_false_iff, List.any_eq_false, List.any_eq_false]
    exact ⟨.inr fun m hm => Bool.eq_false_iff.1 (hns m hm),
      fun m hm => Bool.eq_false_iff.1 (nestsAggregates_of_containsAggregate (hns m hm))⟩
  induction h generalizing n with
  | column =>
    obtain rfl := ofNode_eq_column hn
    rfl
  | constant =>
    obtain rfl := ofNode_eq_constant hn
    rfl
  | target =>
    obtain rfl := ofNode_eq_target hn
    rfl
  | key h =>
    -- The text of a key shows no aggregate, so the call has none.
    obtain ⟨ns, rfl, -, htext⟩ := ofNode_eq_apply hn
    refine nestsAggregates_of_containsAggregate ?_
    rw [← Bool.not_eq_true]
    intro hagg
    exact (hagg ▸ hplain.isShown _ (textOf_eq_ok.1 htext)).not_quiet (hkeys _ h)
  | count hc hs =>
    obtain ⟨ns, rfl, -, hns⟩ := exists_nodes (Operator.family_of_isAggregate hc) hn
    obtain _ | ⟨hm, _ | _⟩ := hns
    obtain rfl := ofNode_eq_column hm
    exact hargument hc (List.forall_mem_singleton.2 rfl)
  | aggregate hc hs hx =>
    obtain ⟨ns, rfl, -, hns⟩ := exists_nodes (Operator.family_of_isAggregate hc) hn
    obtain _ | ⟨hm, _ | _⟩ := hns
    exact hargument hc (List.forall_mem_singleton.2
      (hx.containsAggregate_eq (Scope.isRowContext_aggregated _) hm))
  | call hc _ ih =>
    obtain ⟨hfamily, hagg⟩ := Operator.isRowwise_cases hc
    obtain ⟨ns, rfl, -, hns⟩ := exists_nodes hfamily hn
    rw [nestsAggregates_call (Operator.ne_scalarQuery hfamily), hagg, Bool.false_and,
      Bool.false_or, List.any_eq_false]
    intro m hm
    obtain ⟨x, hx, hmx⟩ := exists_right_of_forall₂ hns m hm
    exact Bool.eq_false_iff.1 (ih x hx hkeys hmx (hplain.operands hfamily m hm))

/-! ### Columns at groups -/

namespace Node

mutual
/-- The columns of an expression that stand neither in an aggregate nor in a call whose text is one
of the keys. -/
def exposed (keys : List String) : Node → List Identifier
  | .identifier i => [i]
  | .list nodes => exposedEach keys nodes
  | .call c operands =>
    if c.operator.isAggregate ∨ c.operator = .scalarQuery ∨
        (Node.call c operands).sql?.any keys.contains then []
    else exposedEach keys operands
  | _ => []

def exposedEach (keys : List String) : List Node → List Identifier
  | [] => []
  | n :: ns => exposed keys n ++ exposedEach keys ns
end

lemma exposedEach_eq_flatMap (keys : List String) (ns : List Node) :
    exposedEach keys ns = ns.flatMap (exposed keys) := by
  induction ns with
  | nil => rfl
  | cons n ns ih => simp [exposedEach, ih]

end Node

/-- A column that is exposed has steps. -/
lemma Operand.Planned.exposed {s : Scope} {o : Operand} {n : Node} {keys : List String}
    (h : Planned s o) (hkeys : ∀ text, s.isGroupKey text = true → text ∈ keys)
    (hn : ofNode n = .ok o) :
    ∀ i ∈ n.exposed keys, i ∈ n.references ∧ ∃ v, s.columnSteps i = .ok v := by
  induction h generalizing n with
  | column h =>
    obtain rfl := ofNode_eq_column hn
    simpa [Node.exposed, Node.references] using ⟨_, h⟩
  | constant =>
    obtain rfl := ofNode_eq_constant hn
    simp [Node.exposed]
  | target =>
    obtain rfl := ofNode_eq_target hn
    simp [Node.exposed]
  | key h =>
    obtain ⟨ns, rfl, -, htext⟩ := ofNode_eq_apply hn
    simp [Node.exposed, textOf_eq_ok.1 htext, hkeys _ h]
  | count hc | aggregate hc =>
    obtain ⟨ns, rfl, -, -⟩ := ofNode_eq_apply hn
    simp [Node.exposed, hc]
  | @call s c _ _ _ hc _ ih =>
    obtain ⟨hfamily, hagg⟩ := Operator.isRowwise_cases hc
    have hname : c.operator ≠ .rename := fun hname => hfamily (by rw [hname]; rfl)
    obtain ⟨ns, rfl, -, hns⟩ := exists_nodes hfamily hn
    intro i hi
    rw [Node.exposed] at hi
    split at hi
    · simp at hi
    · rw [Node.exposedEach_eq_flatMap] at hi
      obtain ⟨m, hm, hi⟩ := List.mem_flatMap.1 hi
      obtain ⟨x, hx, hmx⟩ := exists_right_of_forall₂ hns m hm
      obtain ⟨href, hsteps⟩ := ih x hx hkeys hmx i hi
      rw [Node.references_call (Operator.ne_scalarQuery hfamily) hname]
      exact ⟨List.mem_flatMap.2 ⟨m, hm, href⟩, hsteps⟩

/-! ### The clauses of a query -/

namespace Node

/-- Whether an entry of an ordering is the name of a select item. -/
def isNameOf (aliases : List String) : Node → Bool
  | .identifier i => i.isSimple && aliases.contains i.simple
  | _ => false

end Node

namespace Select

/-- The expressions that the results of a query are made of and ordered by, and the condition on its
groups. An entry of the ordering that is the name of a select item stands for that item. -/
def resultExpressions (q : Select) : List Node :=
  q.items.map Node.expression ++ q.having.toList ++
    (q.orderBy.map (·.expression)).filter fun n => !n.isNameOf q.aliases

/-- Whether the names in a query are plain: those of its columns with their tables, and those of the
properties of the catalog. Names of functions need only be free of quotes. -/
structure IsPlain (c : Catalog) (q : Select) : Prop where
  columns : ∀ i ∈ q.references, i.isPlain = true
  properties : ∀ t ∈ c.tables, ∀ col ∈ t.columns, isPlainName col.property = true
  functions : ∀ n ∈ q.expressions, n.hasQuotedName = false

end Select

namespace Scope

/-- The name of the group key that a column makes. -/
def columnKey (s : Scope) (i : Identifier) : Outcome String :=
  (s.owner i).map fun (b, c) => groupKey b.name c.property

/-- The names of the keys that the entries of a grouping make: a column makes one of its own, and
anything else makes its text one. -/
def keyNames (s : Scope) (groupBy : List Node) : List String :=
  groupBy.filterMap fun
    | .identifier i => (s.columnKey i).toOption
    | n => n.sql?

end Scope

/-- Aggregates stand at groups only and are not nested, and where rows are grouped every column is a
key, or stands in an aggregate or in a call that is a key. -/
structure Select.KeepsGroups (q : Select) (s : Scope) : Prop where
  filter : ∀ n ∈ q.filter, n.containsAggregate = false
  groupBy : ∀ n ∈ q.groupBy, n.containsAggregate = false
  nested : ∀ n ∈ q.expressions, n.nestsAggregates = false
  columns : q.needsGrouping = true → ∀ n ∈ q.resultExpressions,
    ∀ i ∈ n.exposed (s.keyNames q.groupBy), ∃ key, s.columnKey i = .ok key ∧
      ∃ j, .identifier j ∈ q.groupBy ∧ s.columnKey j = .ok key

section

variable {c : Catalog} {q₀ q : Select} {s : Scope} {n e : Node}

/-- Every expression of the results of a planned query has been planned. -/
lemma exists_planned {x : Clauses} (hx : x.Of c q) :
    ∀ n ∈ q.resultExpressions, ∃ o, Operand.ofNode n = .ok o ∧ Operand.Planned x.result o := by
  intro n hn
  rw [Select.resultExpressions, List.mem_append, List.mem_append] at hn
  rcases hn with (hn | hn) | hn
  · obtain ⟨m, hm, rfl⟩ := List.mem_map.1 hn
    obtain ⟨i, hi, used, hitem⟩ := exists_right_of_forall₂ (forall₂_itemsFrom hx.items) m hm
    obtain ⟨e, o, he, ho, hoperand⟩ := item_cases hitem
    obtain ⟨values, hvalues, -⟩ := Outcome.bind_eq_ok.1 hx.projection
    obtain ⟨v, -, hv⟩ := (Outcome.mapM_eq_ok hvalues).2 i hi
    obtain rfl := expression_of_unnamed he
    rw [hoperand] at hv
    exact ⟨o, ho, (Operand.planned_of_value hv).of_rename⟩
  · have hhaving := hx.having
    rw [Option.mem_toList.1 hn] at hhaving
    cases hhaving with
    | some ho hv => exact ⟨_, ho, Operand.planned_of_filter hv⟩
  · simp only [List.mem_filter, List.mem_map, Bool.not_eq_eq_eq_not, Bool.not_true] at hn
    obtain ⟨⟨k, hk, rfl⟩, hname⟩ := hn
    have hsorting := hx.sorting
    rw [orderSteps, if_neg (by simpa using List.ne_nil_of_mem hk)] at hsorting
    obtain ⟨steps, hsteps, -⟩ := Outcome.bind_eq_ok.1 hsorting
    obtain ⟨step, -, hstep⟩ := (Outcome.mapM_eq_ok hsteps).2 k hk
    obtain ⟨o, ho, hstep⟩ := Outcome.bind_eq_ok.1 hstep
    obtain ⟨v, hv, -⟩ := Outcome.bind_eq_ok.1 hstep
    revert hname ho
    generalize k.expression = n
    intro hname ho
    cases n with
    | identifier i =>
      have hfree (hi : i.isSimple = true) :
          x.items.reverse.find? (·.asName = some i.simple) = none := by
        refine List.find?_eq_none.2 fun item hitem hasName => ?_
        obtain ⟨m, hm, used, hm'⟩ := exists_left_of_forall₂ (forall₂_itemsFrom hx.items) item
          (List.mem_reverse.1 hitem)
        have halias : i.simple ∈ q.aliases := List.mem_filterMap.2
          ⟨m, hm, (alias?_of_item hm').trans (of_decide_eq_true hasName)⟩
        simp [Node.isNameOf, hi, halias] at hname
      rw [sortOperand_column hfree] at ho
      cases ho
      exact ⟨_, rfl, Operand.planned_of_value hv⟩
    | literal l => exact ⟨.constant l, rfl, .constant _ l⟩
    | _ => exact ⟨o, ho, Operand.planned_of_value hv⟩

/-- Every table that a scope knows is one of the catalog. -/
lemma mem_tables_of_sourceSteps {v : Steps} (h : sourceSteps (.initial c) n = .ok (s, v)) :
    s.catalog = c ∧ ∀ b ∈ s.bindings, b.table ∈ c.tables := by
  induction n using sourceSteps.induct generalizing s v with
  | case1 t =>
    obtain ⟨table, ht, hs, -⟩ := tableSteps_cases h
    obtain ⟨-, rfl⟩ := Scope.bind_eq_ok hs
    exact ⟨rfl, List.forall_mem_append.2
      ⟨List.forall_mem_nil _, List.forall_mem_singleton.2 (Catalog.mem_of_table ht)⟩⟩
  | case2 left t condition ih =>
    obtain ⟨⟨s₁, before⟩, hleft, h⟩ := Outcome.bind_eq_ok.1 h
    obtain ⟨⟨s₂, after⟩, hjoin, h⟩ := Outcome.bind_eq_ok.1 h
    cases h
    obtain ⟨hcatalog, hmem⟩ := ih hleft
    obtain ⟨b, table, w, -, hw, -, -, hs, -⟩ := joinSteps_cases hjoin
    obtain ⟨-, rfl⟩ := Scope.bind_eq_ok hs
    exact ⟨hcatalog, List.forall_mem_append.2
      ⟨hmem, List.forall_mem_singleton.2 (Catalog.mem_of_table (hcatalog ▸ hw.found))⟩⟩
  | _ => simp_all [sourceSteps]

/-- The conditions of joins that have steps equate two columns. -/
lemma nestsAggregates_conditions {v : Steps} (h : sourceSteps (.initial c) n = .ok (s, v)) :
    ∀ m ∈ n.conditions, m.nestsAggregates = false := by
  have hequates {a b : String} {i j : Identifier} {on : Option Node} (h : Equates a b i j on) :
      ∀ m ∈ on.toList, m.nestsAggregates = false := by
    have hcall {f : Call} (hf : f.operator = .comparison .equal) (i j : Identifier) :
        (Node.call f [.identifier i, .identifier j]).nestsAggregates = false := by
      rw [nestsAggregates_call (by simp [hf])]
      simp [hf, Operator.isAggregate, Node.nestsAggregates, Node.parts]
    cases h with
    | forth hf | back hf => simpa using hcall hf _ _
  induction n using sourceSteps.induct generalizing s v with
  | case1 t => simp [Node.conditions]
  | case2 left t condition ih =>
    obtain ⟨⟨s₁, before⟩, hleft, h⟩ := Outcome.bind_eq_ok.1 h
    obtain ⟨⟨s₂, after⟩, hjoin, h⟩ := Outcome.bind_eq_ok.1 h
    obtain ⟨b, table, w, -, ⟨-, -, i, j, hon, -⟩, -, -, -, -⟩ := joinSteps_cases hjoin
    simp only [Node.conditions, List.append_nil, List.forall_mem_append]
    exact ⟨ih hleft, hequates hon⟩
  | _ => simp_all [sourceSteps]

/-- The columns of a resolved query are spelled as the tables of its rows have them. -/
lemma Select.IsPlain.columns_of_resolve (h : q.IsPlain c) (hq : q₀.resolve c = .ok q) {v : Steps}
    (hn : q.source = some n) (hs : sourceSteps (.initial c) n = .ok (s, v)) :
    ∀ i ∈ q.references, s.IsPlain i := by
  obtain ⟨ts, hts⟩ := resolveSelect_eq_ok hq
  obtain ⟨n₀, -, hr⟩ := hts.exists_source hn
  obtain ⟨rfl, -, hnodup, -⟩ := sources_agree hr ⟨v, hs⟩
  obtain ⟨-, htables⟩ := mem_tables_of_sourceSteps hs
  intro i hi
  refine ⟨h.columns i hi, fun b col howner => ?_⟩
  obtain ⟨i₀, -, hi₀⟩ := exists_left_of_forall₂ (select_references hts) i hi
  obtain ⟨hstar, hcol, -⟩ := Scope.owner_cases howner
  obtain ⟨b', col', -, hnames, howner'⟩ := Scope.sameColumn_of_resolves hnodup hi₀ hstar
  obtain ⟨rfl, rfl⟩ : b = b' ∧ col = col' := by
    rw [howner] at howner'
    simpa using howner'
  exact ⟨hnames, h.properties _ (htables b (Scope.mem_of_owner howner)) col
    (List.mem_of_find?_eq_some hcol)⟩

/-- The expressions of a resolved query have plain names. -/
lemma Select.IsPlain.expression (h : q.IsPlain c) (hq : q.IsWritten)
    (hcolumns : ∀ i ∈ q.references, s.IsPlain i) :
    (∀ n ∈ q.items, n.expression.IsPlain s) ∧ (∀ n ∈ q.groupBy, n.IsPlain s) ∧
      (∀ n ∈ q.having, n.IsPlain s) ∧
      ∀ k ∈ q.orderBy, k.expression.isNameOf q.aliases = false → k.expression.IsPlain s := by
  obtain ⟨hitems, -, -, hgroupBy, hhaving, horderBy⟩ := isWritten_iff.1 hq
  have hnode {n : Node} (hn : n ∈ q.expressions) (hwritten : n.IsWritten .expression)
      (href : ∀ i ∈ n.references, i ∈ q.references) : n.IsPlain s :=
    ⟨.inl hwritten, fun i hi => hcolumns i (href i hi), h.functions n hn⟩
  have hclause {n : Node} (hn : n ∈ q.items ++ q.filter.toList ++ q.groupBy ++ q.having.toList) :
      ∀ i ∈ n.references, i ∈ q.references :=
    fun i hi => List.mem_append_left _ (List.mem_flatMap.2 ⟨n, hn, hi⟩)
  refine ⟨fun n hn => ?_, fun n hn => ?_, fun n hn => ?_, fun k hk hname => ?_⟩
  · have hmem : n ∈ q.expressions := by simp [Select.expressions, hn]
    have href := hclause (n := n) (by simp [hn])
    obtain ⟨hwritten, heq | ⟨f, i, hf, heq⟩⟩ := (hitems n hn).item_cases
    · rw [← heq] at hwritten ⊢
      exact hnode hmem hwritten href
    · have hfunctions := h.functions n hmem
      rw [heq] at href hfunctions
      rw [Node.hasQuotedName, any_parts_call _ (by simp [hf]), Bool.or_eq_false_iff,
        List.any_eq_false] at hfunctions
      refine ⟨.inl hwritten, fun i hi => hcolumns i (href i ?_),
        Bool.eq_false_iff.2 (hfunctions.2 _ (by simp))⟩
      simpa [Node.references, hf] using hi
  · exact hnode (by simp [Select.expressions, hn]) (hgroupBy n hn) (hclause (by simp [hn]))
  · exact hnode (by simp [Select.expressions, Option.mem_def.1 hn]) (hhaving n hn)
      (hclause (by simp [Option.mem_def.1 hn]))
  · refine hnode (List.mem_append_right _ (List.mem_map_of_mem hk)) (horderBy k hk) fun i hi =>
      List.mem_append_right _ (List.mem_flatMap.2 ⟨k, hk, ?_⟩)
    revert hname hi
    generalize k.expression = n
    intro hname hi
    cases n with
    | identifier j =>
      obtain rfl : i = j := by simpa [Node.references] using hi
      rw [keyReferences_column fun hj hmem => ?_]
      · exact hi
      · simp [Node.isNameOf, hj, hmem] at hname
    | _ => exact hi

lemma mem_resultExpressions (hn : n ∈ q.orderBy.map (·.expression))
    (hname : n.isNameOf q.aliases = false) : n ∈ q.resultExpressions :=
  List.mem_append_right _ (List.mem_filter.2 ⟨hn, by simp [hname]⟩)

/-- The keys that rows are grouped by are those of the entries of the grouping. -/
lemma mem_keyNames {ns : List Node} {keys : List (String × Steps)}
    (h : groupKeysFrom s [] ns = .ok keys) : ∀ name ∈ keys.map (·.1), name ∈ s.keyNames ns := by
  intro name hname
  obtain ⟨k, hk, rfl⟩ := List.mem_map.1 hname
  obtain ⟨n, o, hkey⟩ := (exists_isKey h hk).resolve_left List.not_mem_nil
  refine List.mem_filterMap.2 ⟨n, hkey.mem, ?_⟩
  have hname := hkey.name
  cases n with
  | identifier i =>
    obtain rfl : o = .column i := (Except.ok.inj hkey.operand).symm
    have hcolumn : s.columnKey i = .ok k.1 := hname
    simp [hcolumn, Except.toOption]
  | literal l =>
    obtain rfl : o = .constant l := (Except.ok.inj hkey.operand).symm
    exact Operand.textOf_eq_ok.1 hname
  | typeSpec t =>
    obtain rfl : o = .target t := (Except.ok.inj hkey.operand).symm
    exact Operand.textOf_eq_ok.1 hname
  | call f ns =>
    obtain ⟨os, -, ho⟩ := Outcome.bind_eq_ok.1 (Operand.ofNode_call f ns ▸ hkey.operand)
    obtain ⟨text, -, ho⟩ := Outcome.bind_eq_ok.1 ho
    cases ho
    exact Operand.textOf_eq_ok.1 hname
  | _ => exact absurd hkey.operand (by simp [Operand.ofNode])

/-- The name of a column with plain names is the key of a column only. -/
lemma exists_columnKey {ns : List Node} {keys : List (String × Steps)}
    (hkeys : groupKeysFrom s [] ns = .ok keys) (hns : ∀ n ∈ ns, n.IsWritten .expression)
    {label property : String} (hl : isPlainName label) (hp : isPlainName property)
    (hmem : Scope.groupKey label property ∈ keys.map (·.1)) :
    ∃ j, .identifier j ∈ ns ∧ s.columnKey j = .ok (Scope.groupKey label property) := by
  obtain ⟨k, hk, hname⟩ := List.mem_map.1 hmem
  obtain ⟨n, o, hkey⟩ := (exists_isKey hkeys hk).resolve_left List.not_mem_nil
  have hn := hns n hkey.mem
  have htext := hkey.name
  rw [hname] at htext
  cases o with
  | column j => exact ⟨j, Operand.ofNode_eq_column hkey.operand ▸ hkey.mem, htext⟩
  | constant l =>
    obtain rfl := Operand.ofNode_eq_constant hkey.operand
    cases hn with
    | literal hspelled =>
      have htext : Operand.textOf (.literal l) = .ok (Scope.groupKey label property) := htext
      exact absurd (Option.some.inj (Operand.textOf_eq_ok.1 htext)) (hspelled.ne_groupKey hl)
  | target t =>
    obtain rfl := Operand.ofNode_eq_target hkey.operand
    cases hn
  | apply f text label' os =>
    obtain ⟨nodes, rfl, -, -⟩ := Operand.ofNode_eq_apply hkey.operand
    have hbroken := Operand.isBroken_textOf htext
    rw [Scope.isBroken_groupKey hl hp] at hbroken
    cases hbroken
  | raw m => exact absurd hkey.operand Operand.ofNode_ne_raw

/-- A column that can be read at a group is one that its rows are grouped by. -/
lemma columnKey_of_columnSteps {r : Scope} {keys : List (String × Steps)} {ns : List Node}
    {i : Identifier} {v : Steps} (hkeys : groupKeysFrom r [] ns = .ok keys)
    (hns : ∀ n ∈ ns, n.IsWritten .expression) (ha : r.inAggregate = false) (hi : r.IsPlain i)
    (hv : (r.startGrouping (keys.map (·.1))).columnSteps i = .ok v) :
    ∃ key, r.columnKey i = .ok key ∧ ∃ j, .identifier j ∈ ns ∧ r.columnKey j = .ok key := by
  obtain ⟨⟨b, col⟩, howner, hv⟩ := Outcome.bind_eq_ok.1 hv
  have howner : r.owner i = .ok (b, col) := howner
  have hkey : r.columnKey i = .ok (Scope.groupKey b.name col.property) := by
    simp [Scope.columnKey, howner]
  have hgroup : (r.startGrouping (keys.map (·.1))).isRowContext = false := by
    simp [Scope.isRowContext, Scope.isGrouped, Scope.startGrouping, ha]
  simp only [hgroup, Bool.false_eq_true, if_false] at hv
  split at hv
  · next hmem =>
    have hmem : Scope.groupKey b.name col.property ∈ keys.map (·.1) := by
      simpa [Scope.isGroupKey, Scope.isGrouped, Scope.startGrouping, Scope.groupKeys, ha] using hmem
    exact ⟨_, hkey, exists_columnKey hkeys hns (hi.isPlainName howner).1
      (hi.spelled b col howner).2 hmem⟩
  · simp at hv

namespace Clauses.Of

variable {x : Clauses}

/-- Rows are read where they are filtered and grouped. -/
lemma isRowContext (hx : x.Of c q) : x.row.isRowContext = true ∧ x.row.inAggregate = false := by
  obtain ⟨n, -, hsource⟩ := hx.source
  obtain ⟨hgrouping, hinAggregate⟩ := grouping_sourceSteps hsource
  exact ⟨by simp [Scope.isRowContext, Scope.isGrouped, hgrouping, Scope.initial], hinAggregate⟩

/-- A query that needs groups is planned with the keys of its grouping. -/
lemma exists_keys (hx : x.Of c q) (hq : q.needsGrouping = true) :
    ∃ keys, groupKeysFrom x.row [] q.groupBy = .ok keys ∧
      x.result = x.row.startGrouping (keys.map (·.1)) := by
  have hgroups := hx.grouping
  rw [if_pos hq] at hgroups
  obtain ⟨keys, hkeys, hgroups⟩ := Outcome.bind_eq_ok.1 hgroups
  exact ⟨keys, hkeys, (Prod.mk.inj (Except.ok.inj hgroups)).1.symm⟩

lemma isGroupKey_cases (hx : x.Of c q) {text : String} (h : x.result.isGroupKey text = true) :
    ∃ keys, groupKeysFrom x.row [] q.groupBy = .ok keys ∧ text ∈ keys.map (·.1) := by
  by_cases hq : q.needsGrouping = true
  · obtain ⟨keys, hkeys, hresult⟩ := hx.exists_keys hq
    simp only [hresult, Scope.isGroupKey, Scope.startGrouping, Scope.groupKeys, Option.getD_some,
      Bool.and_eq_true, List.contains_iff_mem] at h
    exact ⟨keys, hkeys, h.2⟩
  · have hgroups := hx.grouping
    rw [if_neg hq] at hgroups
    rw [hgroups.1, Scope.isGroupKey_of_isRowContext hx.isRowContext.1] at h
    cases h

lemma containsAggregate_filter (hx : x.Of c q) : ∀ m ∈ q.filter, m.containsAggregate = false := by
  intro m hm
  have hfilters := hx.filter
  rw [hm] at hfilters
  cases hfilters with
  | some ho hv => exact (Operand.planned_of_filter hv).containsAggregate_eq hx.isRowContext.1 ho

lemma containsAggregate_groups (hx : x.Of c q) (hplain : ∀ n ∈ q.groupBy, n.IsPlain x.row) :
    ∀ m ∈ q.groupBy, m.containsAggregate = false := by
  intro m hm
  obtain ⟨keys, hkeys, -⟩ :=
    hx.exists_keys (by simp [Select.needsGrouping, List.ne_nil_of_mem hm])
  exact containsAggregate_groupBy hx.isRowContext.1 hplain hkeys m hm

/-- The clauses of a planned query read what they can. -/
lemma keepsGroups (hx : x.Of c q) (hplain : q.IsPlain c) (hwritten : q.IsWritten)
    (hcolumns : ∀ i ∈ q.references, x.row.IsPlain i) : q.KeepsGroups x.row := by
  obtain ⟨n, hn, hsource⟩ := hx.source
  obtain ⟨hitems, -, -, hgroupBy, -, -⟩ := Select.isWritten_iff.1 hwritten
  obtain ⟨hrow, hinAggregate⟩ := hx.isRowContext
  obtain ⟨hplainItems, hplainGroupBy, hplainHaving, hplainOrderBy⟩ :=
    hplain.expression hwritten hcolumns
  have hfilter := hx.containsAggregate_filter
  have hgroups := hx.containsAggregate_groups hplainGroupBy
  have hresults : ∀ m ∈ q.resultExpressions, m.IsPlain x.row := by
    intro m hm
    simp only [Select.resultExpressions, List.mem_append, List.mem_map, List.mem_filter,
      Option.mem_toList, Bool.not_eq_eq_eq_not, Bool.not_true] at hm
    obtain (⟨m, hm, rfl⟩ | hm) | ⟨⟨k, hk, rfl⟩, hname⟩ := hm
    · exact hplainItems m hm
    · exact hplainHaving m hm
    · exact hplainOrderBy k hk hname
  have hnested : ∀ m ∈ q.resultExpressions, m.nestsAggregates = false := by
    intro m hm
    obtain ⟨o, ho, hplanned⟩ := exists_planned hx m hm
    refine hplanned.nestsAggregates_eq (fun text htext => ?_) ho (hresults m hm)
    obtain ⟨keys, hkeys, hmem⟩ := hx.isGroupKey_cases htext
    exact quiet_keys hrow hplainGroupBy hkeys text hmem
  refine ⟨hfilter, hgroups, fun m hm => ?_, fun hq m hm i hi => ?_⟩
  · simp only [Select.expressions, List.mem_append, Option.mem_toList, hn, Option.map_some,
      Option.getD_some] at hm
    obtain ((((hm | hm) | hm) | hm) | hm) | hm := hm
    · have hexpression := hnested m.expression
        (by simp [Select.resultExpressions, List.mem_map_of_mem hm])
      obtain ⟨-, heq | ⟨f, i, hf, heq⟩⟩ := (hitems m hm).item_cases
      · rwa [heq]
      · have hname : (Node.identifier i).nestsAggregates = false := rfl
        rw [heq, nestsAggregates_call (by simp [hf])]
        simp [hf, Operator.isAggregate, hexpression, hname]
    · exact nestsAggregates_conditions hsource m hm
    · exact nestsAggregates_of_containsAggregate (hfilter m hm)
    · exact nestsAggregates_of_containsAggregate (hgroups m hm)
    · exact hnested m (by simp [Select.resultExpressions, Option.mem_def.1 hm])
    · by_cases hname : m.isNameOf q.aliases = true
      · cases m with
        | identifier i => rfl
        | _ => simp [Node.isNameOf] at hname
      · exact hnested m (mem_resultExpressions hm (by simpa using hname))
  · obtain ⟨keys, hkeys, hresult⟩ := hx.exists_keys hq
    obtain ⟨o, ho, hplanned⟩ := exists_planned hx m hm
    have hnames : ∀ text, x.result.isGroupKey text = true → text ∈ x.row.keyNames q.groupBy := by
      intro text htext
      obtain ⟨keys, hkeys, hmem⟩ := hx.isGroupKey_cases htext
      exact mem_keyNames hkeys text hmem
    obtain ⟨href, v, hv⟩ := hplanned.exposed hnames ho i hi
    rw [hresult] at hv
    exact columnKey_of_columnSteps hkeys hgroupBy hinAggregate ((hresults m hm).columns i href) hv

end Clauses.Of

end

/-- **Aggregates and columns of accepted queries stand where they can be read.** Rows are neither
filtered nor grouped by aggregates, and no aggregate has another in its arguments. Where rows are
grouped, a column of the results is one that they are grouped by, unless it stands in an aggregate
or in an expression that they are grouped by. -/
theorem keepsGroups_of_convert {x : Converter} {text : String} {p : Plan} {q₀ q : Select}
    (h : x.convert text = .ok p) (hq₀ : Parser.parse text = .ok q₀)
    (hq : q₀.resolve x.catalog = .ok q) (hplain : q.IsPlain x.catalog) :
    ∃ n s v, q.source = some n ∧ sourceSteps (.initial x.catalog) n = .ok (s, v) ∧
      q.KeepsGroups s := by
  obtain ⟨_, _, hparse, hresolve, hp⟩ := Converter.convert_eq_ok h
  cases hq₀.symm.trans hparse
  cases hq.symm.trans hresolve
  obtain ⟨x', hx, -, -⟩ := plan_eq_ok hp
  obtain ⟨n, hn, hsource⟩ := hx.source
  have hwritten := Select.IsWritten.resolve (Parser.isWritten_of_parse hq₀) hq
  have hcolumns := hplain.columns_of_resolve hq hn hsource
  exact ⟨n, x'.row, x'.source, hn, hsource, hx.keepsGroups hplain hwritten hcolumns⟩

/-! ### A function named with quotes -/

namespace Letters

def catalog : Catalog :=
  ⟨[⟨"T", "t", [⟨"X", "x", .varchar⟩, ⟨"Y", "y", .integer⟩, ⟨"Z", "z", .integer⟩], .vertex⟩], []⟩

def converter : Converter := ⟨catalog, some "g", none⟩

/-- Two entries with one text: a condition with a constant, and a call of functions that are named so
that the quotes of the constant are theirs. The second has an aggregate. -/
def disguised : String :=
  "SELECT COUNT(*) AS n FROM T GROUP BY T.X = '(COUNT(*), ' OR T.Y = T.Z + T.Z, " ++
    "\"(T.X = '\"(COUNT(*), \"') OR (T.Y = \"(T.Z + T.Z))"

/-- Without the condition on the names of functions rows can be grouped by an aggregate. -/
theorem groups_by_aggregate : ∃ p q₀ q, converter.convert disguised = .ok p ∧
    Parser.parse disguised = .ok q₀ ∧ q₀.resolve catalog = .ok q ∧
    (∀ i ∈ q.references, i.isPlain = true) ∧
    (∀ t ∈ catalog.tables, ∀ col ∈ t.columns, isPlainName col.property = true) ∧
    ∃ n ∈ q.groupBy, n.containsAggregate = true := by
  obtain ⟨p, hp⟩ := Converter.exists_of_isOk
    (show (converter.convert disguised).isOk by decide +kernel)
  obtain ⟨q₀, q, hq₀, hq, -⟩ := Converter.convert_eq_ok hp
  have hcheck : (match Parser.parse disguised with
      | .ok q₀ => match q₀.resolve catalog with
        | .ok q => q.references.all Identifier.isPlain && q.groupBy.any Node.containsAggregate
        | .error _ => false
      | .error _ => false) = true := by decide +kernel
  simp only [hq₀, show q₀.resolve catalog = .ok q from hq, Bool.and_eq_true, List.all_eq_true,
    List.any_eq_true] at hcheck
  exact ⟨p, q₀, q, hp, hq₀, hq, hcheck.1, by decide, hcheck.2⟩

/-- A key of a column, a key of an expression, and aggregates over both. -/
def totals : String :=
  "SELECT T.X, T.Y + 1 AS next, SUM(T.Z) FROM T WHERE Z > 2 GROUP BY T.X, T.Y + 1 " ++
    "HAVING COUNT(*) > 1 ORDER BY next, MAX(T.Y), X"

theorem keeps_groups : ∃ p q₀ q, converter.convert totals = .ok p ∧
    Parser.parse totals = .ok q₀ ∧ q₀.resolve catalog = .ok q ∧ q.IsPlain catalog ∧
    ∃ n s v, q.source = some n ∧ sourceSteps (.initial catalog) n = .ok (s, v) ∧
      q.KeepsGroups s := by
  obtain ⟨p, hp⟩ := Converter.exists_of_isOk
    (show (converter.convert totals).isOk by decide +kernel)
  obtain ⟨q₀, q, hq₀, hq, -⟩ := Converter.convert_eq_ok hp
  have hcheck : (match Parser.parse totals with
      | .ok q₀ => match q₀.resolve catalog with
        | .ok q => q.references.all Identifier.isPlain && !q.expressions.any Node.hasQuotedName
        | .error _ => false
      | .error _ => false) = true := by decide +kernel
  simp only [hq₀, show q₀.resolve catalog = .ok q from hq, Bool.and_eq_true, List.all_eq_true,
    Bool.not_eq_eq_eq_not, Bool.not_true, List.any_eq_false, Bool.not_eq_true] at hcheck
  have hplain : q.IsPlain catalog := ⟨hcheck.1, by decide, hcheck.2⟩
  exact ⟨p, q₀, q, hp, hq₀, hq, hplain, keepsGroups_of_convert hp hq₀ hq hplain⟩

end Letters

end GraphSelect
