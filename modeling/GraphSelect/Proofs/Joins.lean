import GraphSelect.Plan.Source
import GraphSelect.Proofs.Rows
import Mathlib.Data.List.Nodup

/-!
The traversers that come out of a `FROM` clause.

A choice for the tables of the clause is an element for the first of them and an edge for every
join, which leads from a table joined before to the new one. The traversers are the choices, each
once. A join may start from any table joined before, so what is kept along a chain of joins is where
every table is bound, and not only where the traverser stands.
-/

namespace GraphSelect

namespace Graph

variable {E D : Type} (g : Graph E D)

def elements : ElementKind → List E
  | .vertex => g.vertices
  | .edge => g.edges

/-- The end of an edge where a walk along it begins. -/
def near : Direction → E → E
  | .out => g.source
  | .in => g.target

/-- The end of an edge where a walk along it arrives. -/
def far : Direction → E → E
  | .out => g.target
  | .in => g.source

end Graph

/-! ### Choices -/

/-- A condition that equates a column of table `a` and one of table `b`, in either order. -/
inductive Equates (a b : String) (i j : Identifier) : Option Node → Prop
  | forth {f : Call} (hf : f.operator = .comparison .equal) (hi : ∃ k, i.names = [a, k])
      (hj : ∃ k, j.names = [b, k]) :
      Equates a b i j (some (.call f [.identifier i, .identifier j]))
  | back {f : Call} (hf : f.operator = .comparison .equal) (hi : ∃ k, i.names = [a, k])
      (hj : ∃ k, j.names = [b, k]) :
      Equates a b i j (some (.call f [.identifier j, .identifier i]))

/-- The join of a table to one that is bound, along the edge that the catalog has for the columns
it equates. -/
structure JoinsAlong (c : Catalog) (t : TableRef) (condition : Option Node) (b : Binding)
    (table : Table) (w : Walk) : Prop where
  found : c.table t.name = .ok table
  other : b.name ≠ t.binding
  along : ∃ i j, Equates b.name t.binding i j condition ∧
    c.walk b.table.name table.name (some i.simple) (some j.simple) = .ok w

/-- What is chosen for the tables of a query, and the elements that they are bound to by this. The
last stands first. -/
structure Choice (E : Type) where
  chosen : List E
  bound : List (Binding × E)

namespace Choice

variable {E D : Type}

def first (b : Binding) (e : E) : Choice E := ⟨[e], [(b, e)]⟩

/-- A choice with one more edge, which leads to the element of one more table. -/
def next (ch : Choice E) (b : Binding) (edge e : E) : Choice E :=
  ⟨edge :: ch.chosen, (b, e) :: ch.bound⟩

/-- A choice with any edge of a walk from one table to the next. -/
def extensions [DecidableEq E] (g : Graph E D) (b : Binding) (w : Walk) (b' : Binding)
    (ch : Choice E) : List (Choice E) :=
  (g.edges.filter fun e => g.label e = w.edge.label ∧ (b, g.near w.direction e) ∈ ch.bound ∧
    g.label (g.far w.direction e) = b'.table.label).map fun e =>
      ch.next b' e (g.far w.direction e)

/-- The traverser that a choice leads to. -/
def traverser (ch : Choice E) : Traverser E D where
  here := (ch.bound.head?.map fun p => .element p.2).getD .start
  labels := ch.bound.map fun p => (p.1.name, .element p.2)

end Choice

/-- The choices for a `FROM` clause: an element with the label of the first table, and for every
join an edge at the element of a table joined before, the other end of which has the label of the
new table. -/
inductive IsChoice {E D : Type} (c : Catalog) (g : Graph E D) : Node → Choice E → Prop
  | table {t : TableRef} {table : Table} {e : E} (ht : c.table t.name = .ok table)
      (he : e ∈ g.elements table.kind) (hl : g.label e = table.label) :
      IsChoice c g (.table t) (.first ⟨t.binding, table⟩ e)
  | join {left : Node} {t : TableRef} {condition : Option Node} {ch : Choice E} {b : Binding}
      {v : E} {table : Table} {w : Walk} {e : E} (h : IsChoice c g left ch)
      (hb : (b, v) ∈ ch.bound) (hw : JoinsAlong c t condition b table w) (he : e ∈ g.edges)
      (hl : g.label e = w.edge.label) (hv : g.near w.direction e = v)
      (hfar : g.label (g.far w.direction e) = table.label) :
      IsChoice c g (.join left .inner (.table t) condition)
        (ch.next ⟨t.binding, table⟩ e (g.far w.direction e))

/-! ### The steps of joins -/

lemma joinColumns_eq_ok {condition : Option Node} {name : String} {i j : Identifier} :
    joinColumns condition name = .ok (i, j) ↔
      ∃ a, a ≠ name ∧ Equates a name i j condition := by
  constructor
  · intro h
    unfold joinColumns at h
    split at h
    · next left right =>
      split at h
      · next a k b l hl hr =>
        split at h
        · next hname =>
          cases h
          exact ⟨a, hname.2, .forth rfl ⟨k, hl⟩ ⟨l, hname.1 ▸ hr⟩⟩
        · split at h
          · next hname =>
            cases h
            exact ⟨b, hname.2, .back rfl ⟨l, hr⟩ ⟨k, hname.1 ▸ hl⟩⟩
          · simp at h
      · simp at h
    · simp at h
  · rintro ⟨a, ha, h⟩
    cases h with
    | @forth f hf hi hj =>
      obtain ⟨op, distinct, type⟩ := f
      obtain ⟨⟨k, hk⟩, ⟨l, hl⟩⟩ := hi, hj
      cases hf
      simp [joinColumns, hk, hl, ha]
    | @back f hf hi hj =>
      obtain ⟨op, distinct, type⟩ := f
      obtain ⟨⟨k, hk⟩, ⟨l, hl⟩⟩ := hi, hj
      cases hf
      simp [joinColumns, hk, hl, ha]

lemma Equates.names {a b : String} {i j : Identifier} {condition : Option Node}
    (h : Equates a b i j condition) : ∃ k, i.names = [a, k] := by
  cases h <;> assumption

/-- The condition of a join tells from where it starts, and so along which edge. -/
lemma JoinsAlong.unique {c : Catalog} {t : TableRef} {condition : Option Node} {b b' : Binding}
    {table table' : Table} {w w' : Walk} (h : JoinsAlong c t condition b table w)
    (h' : JoinsAlong c t condition b' table' w') :
    table = table' ∧ b.name = b'.name ∧ (b = b' → w = w') := by
  obtain ⟨ht, ho, i, j, hij, hw⟩ := h
  obtain ⟨ht', ho', i', j', hij', hw'⟩ := h'
  have htable : table = table' := by
    rw [ht] at ht'
    exact Except.ok.inj ht'
  have hcolumns := joinColumns_eq_ok.2 ⟨_, ho, hij⟩
  rw [joinColumns_eq_ok.2 ⟨_, ho', hij'⟩] at hcolumns
  cases hcolumns
  obtain ⟨⟨k, hk⟩, ⟨k', hk'⟩⟩ := hij.names, hij'.names
  have hname : [b.name, k] = [b'.name, k'] := hk.symm.trans hk'
  refine ⟨htable, (List.cons.inj hname).1, ?_⟩
  rintro rfl
  rw [← htable, hw] at hw'
  exact Except.ok.inj hw'

/-- The step along an edge. -/
def Walk.step (w : Walk) : Step :=
  match w.direction with
  | .out => .out w.edge.label
  | .in => .in_ w.edge.label

lemma Walk.isLocal_steps (w : Walk) (label name : String) :
    [w.step, .hasLabel label, .label name].all Step.isLocal := by
  obtain ⟨edge, _ | _⟩ := w <;> rfl

section

variable {s s' : Scope} {t : TableRef} {condition : Option Node} {steps : Steps}

lemma Scope.bind_eq_ok {name : String} {table : Table} (h : s.bind name table = .ok s') :
    (∀ b ∈ s.bindings, b.name ≠ name) ∧
      s' = { s with bindings := s.bindings ++ [⟨name, table⟩] } := by
  unfold Scope.bind at h
  split at h
  · simp at h
  · next hfree =>
    cases h
    refine ⟨fun b hb hname => hfree ?_, rfl⟩
    simp only [Scope.binding?, List.find?_isSome]
    exact ⟨b, hb, by simpa using hname⟩

lemma Scope.binding_eq_ok {name : String} {b : Binding} (h : s.binding name = .ok b) :
    b ∈ s.bindings ∧ b.name = name := by
  unfold Scope.binding at h
  split at h
  · next b' hb =>
    cases h
    exact ⟨List.mem_of_find?_eq_some hb, by simpa using List.find?_some hb⟩
  · simp at h

lemma tableSteps_cases (h : tableSteps s t = .ok (s', steps)) :
    ∃ table, s.catalog.table t.name = .ok table ∧ s.bind t.binding table = .ok s' ∧
      steps = [if table.isVertex then .vertices else .edges, .hasLabel table.label,
        .label t.binding] := by
  unfold tableSteps at h
  obtain ⟨table, ht, h⟩ := Outcome.bind_eq_ok.1 h
  obtain ⟨s₁, hs, h⟩ := Outcome.bind_eq_ok.1 h
  cases h
  exact ⟨table, ht, hs, rfl⟩

lemma joinSteps_cases (h : joinSteps s t condition = .ok (s', steps)) :
    ∃ b table w, b ∈ s.bindings ∧ JoinsAlong s.catalog t condition b table w ∧
      b.table.isVertex ∧ table.isVertex ∧ s.bind t.binding table = .ok s' ∧
      steps = (if s.currentLabel? = some b.name then [] else [.select [b.name]]) ++
        [w.step, .hasLabel table.label, .label t.binding] := by
  unfold joinSteps at h
  obtain ⟨table, ht, h⟩ := Outcome.bind_eq_ok.1 h
  obtain ⟨⟨i, j⟩, hij, h⟩ := Outcome.bind_eq_ok.1 h
  obtain ⟨b, hb, h⟩ := Outcome.bind_eq_ok.1 h
  dsimp only at h
  split at h
  · simp at h
  · next hvertex =>
    obtain ⟨w, hw, h⟩ := Outcome.bind_eq_ok.1 h
    obtain ⟨s₁, hs, h⟩ := Outcome.bind_eq_ok.1 h
    cases h
    obtain ⟨a, ha, hequates⟩ := joinColumns_eq_ok.1 hij
    obtain ⟨k, hk⟩ := hequates.names
    obtain ⟨hmem, hname⟩ := Scope.binding_eq_ok hb
    obtain rfl : b.name = a := by simpa [hk] using hname
    simp only [Bool.or_eq_true, Bool.not_eq_eq_eq_not, Bool.not_true, not_or,
      Bool.not_eq_false] at hvertex
    exact ⟨b, table, w, hmem, ⟨ht, ha, i, j, hequates, hw⟩, hvertex.1, hvertex.2, hs, rfl⟩

end

/-! ### The traversers of choices -/

namespace Choice

variable {E D : Type} {ch : Choice E}

lemma mem_extensions [DecidableEq E] {g : Graph E D} {b b' : Binding} {w : Walk} {ch' : Choice E} :
    ch' ∈ ch.extensions g b w b' ↔
      ∃ e ∈ g.edges, g.label e = w.edge.label ∧ (b, g.near w.direction e) ∈ ch.bound ∧
        g.label (g.far w.direction e) = b'.table.label ∧
        ch' = ch.next b' e (g.far w.direction e) := by
  simp only [extensions, List.mem_map, List.mem_filter, decide_eq_true_eq, and_assoc]
  simp only [eq_comm]

lemma nodup_extensions [DecidableEq E] {choices : List (Choice E)} (g : Graph E D) (b b' : Binding)
    (w : Walk) (h : (choices.map (·.chosen)).Nodup) :
    ((choices.flatMap (extensions g b w b')).map (·.chosen)).Nodup := by
  rw [List.map_flatMap, List.nodup_flatMap]
  simp only [extensions, List.map_map]
  constructor
  · intro ch _
    exact (g.edges_nodup.filter _).map fun e e' he => (List.cons.inj he).1
  · refine (List.pairwise_map.1 h).imp fun {ch ch'} hne => List.disjoint_left.2 ?_
    intro chosen hch hch'
    obtain ⟨e, -, rfl⟩ := List.mem_map.1 hch
    obtain ⟨e', -, he'⟩ := List.mem_map.1 hch'
    exact hne (List.cons.inj he').2.symm

lemma named?_traverser (name : String) :
    (ch.traverser : Traverser E D).named? name =
      (ch.bound.map fun p => (p.1.name, Place.element p.2)).lookup name := by
  obtain ⟨chosen, _ | ⟨⟨b, e⟩, bound⟩⟩ := ch <;> rfl

/-- Names that are used once lead to the elements they are bound to. -/
lemma named?_of_mem (hnames : (ch.bound.map (·.1.name)).Nodup) {b : Binding} {v : E}
    (hb : (b, v) ∈ ch.bound) :
    (ch.traverser : Traverser E D).named? b.name = some (.element v) := by
  rw [named?_traverser]
  obtain ⟨chosen, bound⟩ := ch
  induction bound with
  | nil => simp at hb
  | cons p bound ih =>
    obtain ⟨hfresh, hrest⟩ := List.nodup_cons.1 hnames
    rcases List.mem_cons.1 hb with rfl | hb
    · simp
    · have hne : (b.name == p.1.name) = false := by
        simp only [beq_eq_false_iff_ne]
        intro heq
        exact hfresh (List.mem_map.2 ⟨_, hb, heq⟩)
      simpa [List.lookup_cons, hne] using ih hrest hb

/-- A name that is used once is bound to one element. -/
lemma element_unique (hnames : (ch.bound.map (·.1.name)).Nodup) {b b' : Binding} {v v' : E}
    (hb : (b, v) ∈ ch.bound) (hb' : (b', v') ∈ ch.bound) (h : b.name = b'.name) : v = v' := by
  have hv := named?_of_mem (D := Unit) hnames hb
  have hv' := named?_of_mem (D := Unit) hnames hb'
  rw [h, hv'] at hv
  simpa using hv.symm

/-- Where the names of a scope are used once, so are those of a choice for its tables. -/
lemma nodup_names {s : Scope} (hnames : s.labels.Nodup)
    (hbound : ch.bound.map (·.1) = s.bindings.reverse) : (ch.bound.map (·.1.name)).Nodup := by
  have : ch.bound.map (·.1.name) = s.labels.reverse := by
    rw [Scope.labels, ← List.map_reverse, ← hbound, List.map_map]
    rfl
  rw [this]
  exact List.nodup_reverse.2 hnames

end Choice

namespace Executor

variable {E D : Type} [DecidableEq E] {x : Executor E D}

lemma run_walk (w : Walk) {t : Traverser E D} {v : E} (h : t.here = .element v) :
    (x.run [w.step] t).Perm
      ((x.graph.edges.filter fun e => x.graph.label e = w.edge.label ∧
          x.graph.near w.direction e = v).map fun e =>
        t.moved (.element (x.graph.far w.direction e))) := by
  obtain ⟨edge, _ | _⟩ := w
  · exact x.run_out edge.label v t h
  · exact x.run_in edge.label v t h

/-- Behind the steps to a table are the elements with its label, under its name. -/
lemma run_arrivals (label name : String) (far : E → E) (t : Traverser E D) (es : List E) :
    (es.map fun e => t.moved (.element (far e))).flatMap
        (x.run [.hasLabel label, .label name]) =
      (es.filter fun e => x.graph.label (far e) = label).map fun e =>
        (t.moved (.element (far e))).labelled name := by
  induction es with
  | nil => rfl
  | cons e es ih =>
    have hrun : x.run [.hasLabel label, .label name] (t.moved (.element (far e))) =
        if x.graph.label (far e) = label then [(t.moved (.element (far e))).labelled name]
        else [] := by
      rw [← List.singleton_append, x.run_append _ _ _ rfl, x.run_hasLabel label (far e) _ rfl,
        Traverser.flatMap_keptIf, x.run_label]
      simp
    rw [List.map_cons, List.flatMap_cons, ih, hrun]
    by_cases hl : x.graph.label (far e) = label <;> simp [hl]

variable {c : Catalog} {s s' : Scope} {n : Node} {t : TableRef} {condition : Option Node}
  {steps before : Steps}

variable (x) in
/-- The steps of a `FROM` clause emit just the choices for it, and every choice binds the tables of
the scope in their order. -/
structure Emits (c : Catalog) (n : Node) (s : Scope) (steps : Steps) (choices : List (Choice E)) :
    Prop where
  catalog : s.catalog = c
  names : s.labels.Nodup
  bound : ∀ ch ∈ choices, ch.bound.map (·.1) = s.bindings.reverse
  nodup : (choices.map (·.chosen)).Nodup
  mem_iff : ∀ ch, ch ∈ choices ↔ IsChoice c x.graph n ch
  run : (x.run steps .start).Perm (choices.map Choice.traverser)

lemma emits_table (h : tableSteps (.initial c) t = .ok (s, steps)) :
    ∃ choices, x.Emits c (.table t) s steps choices := by
  obtain ⟨table, ht, hs, rfl⟩ := tableSteps_cases h
  obtain ⟨-, rfl⟩ := Scope.bind_eq_ok hs
  refine ⟨((x.graph.elements table.kind).filter fun e => x.graph.label e = table.label).map
    (.first ⟨t.binding, table⟩), rfl, ?_, ?_, ?_, ?_, ?_⟩
  · simp [Scope.labels, Scope.initial]
  · intro ch hch
    obtain ⟨e, -, rfl⟩ := List.mem_map.1 hch
    rfl
  · have hnodup : (x.graph.elements table.kind).Nodup := by
      cases table.kind
      · exact x.graph.vertices_nodup
      · exact x.graph.edges_nodup
    rw [List.map_map]
    exact (hnodup.filter _).map fun e e' he => (List.cons.inj he).1
  · intro ch
    simp only [List.mem_map, List.mem_filter, decide_eq_true_eq]
    constructor
    · rintro ⟨e, ⟨he, hl⟩, rfl⟩
      exact .table ht he hl
    · rintro ⟨ht', he, hl⟩
      rw [Scope.initial, ht'] at ht
      cases ht
      exact ⟨_, ⟨he, hl⟩, rfl⟩
  · have hstart : (x.run [if table.isVertex then .vertices else .edges] .start).Perm
        ((x.graph.elements table.kind).map fun e => Traverser.start.moved (.element e)) := by
      unfold Table.isVertex
      cases table.kind
      · exact x.run_vertices .start
      · exact x.run_edges .start
    rw [← List.singleton_append, x.run_append _ _ _ rfl]
    refine (hstart.flatMap_right _).trans (.of_eq ?_)
    refine (run_arrivals table.label t.binding id .start _).trans ?_
    rw [List.map_map]
    rfl

/-- A join goes from the place of a choice to the end of every edge that it can walk there. -/
lemma run_joinSteps {ch : Choice E} {b : Binding} (b' : Binding) {w : Walk} {v : E}
    (hnames : s.labels.Nodup) (hbound : ch.bound.map (·.1) = s.bindings.reverse)
    (hv : (b, v) ∈ ch.bound) :
    (x.run ((if s.currentLabel? = some b.name then [] else [.select [b.name]]) ++
        [w.step, .hasLabel b'.table.label, .label b'.name]) ch.traverser).Perm
      ((ch.extensions x.graph b w b').map Choice.traverser) := by
  have hunique := Choice.nodup_names hnames hbound
  have hnamed := Choice.named?_of_mem (D := D) hunique hv
  -- The traverser stands at the last table, and is to stand at the one that the join starts from.
  have hback : x.run (if s.currentLabel? = some b.name then [] else [.select [b.name]])
      ch.traverser = [ch.traverser.moved (.element v)] := by
    split
    · next hcurrent =>
      have hhead : ch.bound.head?.map (·.1) = s.bindings.getLast? := by
        rw [← List.head?_map, hbound, List.head?_reverse]
      obtain ⟨chosen, _ | ⟨⟨last, e⟩, bound⟩⟩ := ch
      · simp at hv
      · have hname : last.name = b.name := by
          rw [Scope.currentLabel?, Scope.labels, List.getLast?_map, ← hhead] at hcurrent
          simpa using hcurrent
        obtain rfl : e = v := Choice.element_unique hunique List.mem_cons_self hv hname
        exact x.run_nil _
    · rw [x.run_select, hnamed]
      rfl
  have hnear : ∀ e, (b, x.graph.near w.direction e) ∈ ch.bound ↔ x.graph.near w.direction e = v :=
    fun e => ⟨fun he => Choice.element_unique hunique he hv rfl, fun he => he ▸ hv⟩
  rw [x.run_append _ _ _ (w.isLocal_steps _ _), hback, List.flatMap_singleton,
    ← List.singleton_append, x.run_append _ _ _ rfl]
  refine ((run_walk w rfl).flatMap_right _).trans (.of_eq ?_)
  rw [run_arrivals, List.filter_filter, Choice.extensions, List.map_map]
  simp only [hnear]
  congr 1
  refine List.filter_congr fun e _ => ?_
  simp only [Bool.decide_and]
  rw [Bool.and_comm, Bool.and_assoc]

/-- Behind a join stand the choices with an edge more. -/
lemma Emits.run_join {choices : List (Choice E)} (h : x.Emits c n s before choices) (b' : Binding)
    {b : Binding} (hb : b ∈ s.bindings) {w : Walk} :
    (x.run (before ++ ((if s.currentLabel? = some b.name then [] else [.select [b.name]]) ++
        [w.step, .hasLabel b'.table.label, .label b'.name])) .start).Perm
      ((choices.flatMap (Choice.extensions x.graph b w b')).map Choice.traverser) := by
  have hlocal : ((if s.currentLabel? = some b.name then [] else [Step.select [b.name]]) ++
      [w.step, .hasLabel b'.table.label, .label b'.name]).all Step.isLocal := by
    rw [List.all_append, w.isLocal_steps]
    split <;> rfl
  rw [x.run_append _ _ _ hlocal, List.map_flatMap]
  refine (h.run.flatMap_right _).trans ?_
  rw [List.flatMap_map]
  refine .flatMap_left _ fun ch hch => ?_
  have hmem : b ∈ ch.bound.map (·.1) := by
    rw [h.bound ch hch]
    exact List.mem_reverse.2 hb
  obtain ⟨⟨b, v⟩, hv, rfl⟩ := List.mem_map.1 hmem
  exact run_joinSteps b' h.names (h.bound ch hch) hv

/-- One more join is one more edge behind every choice. -/
lemma Emits.join {choices : List (Choice E)} (h : x.Emits c n s before choices)
    (hj : joinSteps s t condition = .ok (s', steps)) :
    ∃ choices, x.Emits c (.join n .inner (.table t) condition) s' (before ++ steps) choices := by
  obtain ⟨b, table, w, hb, hw, -, -, hs, rfl⟩ := joinSteps_cases hj
  obtain ⟨hfresh, rfl⟩ := Scope.bind_eq_ok hs
  refine ⟨choices.flatMap (Choice.extensions x.graph b w ⟨t.binding, table⟩), h.catalog, ?_, ?_,
    Choice.nodup_extensions x.graph b _ w h.nodup, fun ch' => ⟨fun hch' => ?_, fun hch' => ?_⟩, ?_⟩
  · have hnew : t.binding ∉ s.labels := by
      intro ht
      obtain ⟨b', hb', hname⟩ := List.mem_map.1 ht
      exact hfresh b' hb' hname
    rw [Scope.labels, List.map_append]
    exact h.names.append (List.nodup_singleton _) (by simpa using hnew)
  · intro ch hch
    obtain ⟨ch, hold, hnew⟩ := List.mem_flatMap.1 hch
    obtain ⟨e, -, -, -, -, rfl⟩ := Choice.mem_extensions.1 hnew
    simp [Choice.next, h.bound ch hold]
  · obtain ⟨ch, hch, hnew⟩ := List.mem_flatMap.1 hch'
    obtain ⟨e, he, hl, hv, hfar, rfl⟩ := Choice.mem_extensions.1 hnew
    exact .join ((h.mem_iff ch).1 hch) hv (h.catalog ▸ hw) he hl rfl hfar
  · cases hch' with
    | @join _ _ _ ch b' v table' w' e hch hb' hw' he hl hv hfar =>
      rw [← h.catalog] at hw'
      obtain ⟨rfl, hname, hwalk⟩ := hw.unique hw'
      have hch := (h.mem_iff ch).2 hch
      -- The table that the join starts from is known by its name, which no other has.
      have hmem : b' ∈ s.bindings := by
        rw [← List.mem_reverse, ← h.bound ch hch]
        exact List.mem_map_of_mem hb'
      obtain rfl := List.inj_on_of_nodup_map h.names hb hmem hname
      obtain rfl := hwalk rfl
      exact List.mem_flatMap.2 ⟨ch, hch, Choice.mem_extensions.2 ⟨e, he, hl, hv ▸ hb', hfar, rfl⟩⟩
  · exact h.run_join ⟨t.binding, table⟩ hb

lemma exists_emits (h : sourceSteps (.initial c) n = .ok (s, steps)) :
    ∃ choices, x.Emits c n s steps choices := by
  fun_induction sourceSteps (.initial c) n generalizing s steps with
  | case1 t => exact emits_table h
  | case2 left t condition ih =>
    obtain ⟨⟨s₁, before⟩, hleft, h⟩ := Outcome.bind_eq_ok.1 h
    obtain ⟨⟨s₂, after⟩, hjoin, h⟩ := Outcome.bind_eq_ok.1 h
    cases h
    obtain ⟨choices, hchoices⟩ := ih hleft
    exact hchoices.join hjoin
  | case3 | case4 | case5 => simp at h

end Executor

/-- Whether a node joins tables. -/
def Node.isJoin : Node → Bool
  | .join _ _ _ _ => true
  | _ => false

/-- Only vertices are joined. -/
lemma isVertex_of_sourceSteps {c : Catalog} {n : Node} {s : Scope} {steps : Steps}
    (h : sourceSteps (.initial c) n = .ok (s, steps)) :
    (∀ b ∈ s.bindings, b.table.isVertex) ∨ (n.isJoin = false ∧ ∃ b, s.bindings = [b]) := by
  fun_induction sourceSteps (.initial c) n generalizing s steps with
  | case1 t =>
    obtain ⟨table, -, hs, -⟩ := tableSteps_cases h
    obtain ⟨-, rfl⟩ := Scope.bind_eq_ok hs
    exact .inr ⟨rfl, _, rfl⟩
  | case2 left t condition ih =>
    obtain ⟨⟨s₁, before⟩, hleft, h⟩ := Outcome.bind_eq_ok.1 h
    obtain ⟨⟨s₂, after⟩, hjoin, h⟩ := Outcome.bind_eq_ok.1 h
    cases h
    obtain ⟨b, table, w, hb, -, hvertex, htable, hs, -⟩ := joinSteps_cases hjoin
    obtain ⟨-, rfl⟩ := Scope.bind_eq_ok hs
    have hold : ∀ b ∈ s₁.bindings, b.table.isVertex := by
      rcases ih hleft with hall | ⟨-, b', hb'⟩
      · exact hall
      · simp_all
    left
    intro b' hb'
    rcases List.mem_append.1 hb' with hb' | hb'
    · exact hold b' hb'
    · simpa [List.mem_singleton.1 hb'] using htable
  | case3 | case4 | case5 => simp at h

variable {E D : Type} [DecidableEq E]

/-- **What a `FROM` clause emits.** The traversers behind the steps of a `FROM` clause are the
choices for it, each once. Every choice binds each table to an element of its own, and where tables
are joined all of them are vertices. -/
theorem source_emits_choices (x : Executor E D) {c : Catalog} {n : Node} {s : Scope} {steps : Steps}
    (h : sourceSteps (.initial c) n = .ok (s, steps)) :
    ∃ choices : List (Choice E),
      (choices.map (·.chosen)).Nodup ∧ (∀ ch, ch ∈ choices ↔ IsChoice c x.graph n ch) ∧
      (x.run steps .start).Perm (choices.map Choice.traverser) ∧
      (∀ ch ∈ choices, ch.bound.map (·.1) = s.bindings.reverse ∧
        ∀ b e, (b, e) ∈ ch.bound →
          (ch.traverser : Traverser E D).named? b.name = some (.element e)) ∧
      (n.isJoin → ∀ b ∈ s.bindings, b.table.isVertex) := by
  obtain ⟨choices, hc⟩ := Executor.exists_emits (x := x) h
  refine ⟨choices, hc.nodup, hc.mem_iff, hc.run, fun ch hch => ⟨hc.bound ch hch, ?_⟩, fun hn => ?_⟩
  · intro b e hb
    exact Choice.named?_of_mem (Choice.nodup_names hc.names (hc.bound ch hch)) hb
  · exact (isVertex_of_sourceSteps h).resolve_right (by simp [hn])

section

open People

/-- `person AS p INNER JOIN person AS q ON p.name = q.name` -/
def People.source : Node :=
  .join (.table ⟨"person", some "p"⟩) .inner (.table ⟨"person", some "q"⟩)
    (some (.apply (.comparison .equal) [column "p" "name", column "q" "name"]))

/-- The first person comes out with the second, whom it knows. -/
theorem People.source_emits_acquaintance :
    ∃ steps, sourceSteps (.initial catalog) source = .ok (scope, steps) ∧
      traverser 0 1 ∈ executor.run steps .start := by
  obtain ⟨steps, hsteps⟩ : ∃ steps, sourceSteps (.initial catalog) source = .ok (scope, steps) :=
    ⟨_, rfl⟩
  refine ⟨steps, hsteps, ?_⟩
  obtain ⟨choices, -, hmem, hrun, -⟩ := source_emits_choices executor hsteps
  have hperson : IsChoice catalog Graph.people (.table ⟨"person", some "p"⟩)
      (.first ⟨"p", table⟩ 0) := .table rfl (by decide) rfl
  have hjoin : JoinsAlong catalog ⟨"person", some "q"⟩
      (some (.apply (.comparison .equal) [column "p" "name", column "q" "name"])) ⟨"p", table⟩ table
      ⟨⟨"knows", "person", "person", none, none⟩, .out⟩ :=
    ⟨rfl, by decide, _, _, .forth rfl ⟨_, rfl⟩ ⟨_, rfl⟩, rfl⟩
  have hchoice := (hmem _).2 (.join hperson List.mem_cons_self hjoin
    (by decide : 2 ∈ Graph.people.edges) rfl rfl rfl)
  exact hrun.mem_iff.2 (List.mem_map.2 ⟨_, hchoice, rfl⟩)

end

/-- Every traverser behind a `FROM` clause stands at a row. -/
theorem source_standsAt (x : Executor E D) {c : Catalog} {n : Node} {s : Scope} {steps : Steps}
    (h : sourceSteps (.initial c) n = .ok (s, steps)) {t : Traverser E D}
    (ht : t ∈ x.run steps .start) : ∃ row, Executor.StandsAt s row t := by
  obtain ⟨choices, hc⟩ := Executor.exists_emits (x := x) h
  obtain ⟨ch, hch, rfl⟩ := List.mem_map.1 (hc.run.mem_iff.1 ht)
  have hbound := hc.bound ch hch
  obtain ⟨first⟩ : Nonempty E := by
    cases (hc.mem_iff ch).1 hch with
    | @table _ _ e => exact ⟨e⟩
    | @join _ _ _ _ _ _ _ _ e => exact ⟨e⟩
  refine ⟨fun name => (((ch.traverser : Traverser E D).named? name).bind Place.element?).getD first,
    fun b hb => ?_⟩
  have hmem : b ∈ ch.bound.map (·.1) := by
    rw [hbound]
    exact List.mem_reverse.2 hb
  obtain ⟨⟨b, e⟩, he, rfl⟩ := List.mem_map.1 hmem
  have hnamed := Choice.named?_of_mem (D := D) (Choice.nodup_names hc.names hbound) he
  simp only [hnamed, Option.bind_some, Place.element?, Option.getD_some, Executor.Reaches]
  split
  · next hsingle =>
    have hlength : ch.bound.length = 1 := by
      rw [← List.length_map, hbound, List.length_reverse]
      simpa [Scope.isSingleTable] using hsingle
    obtain ⟨p, hp⟩ := List.length_eq_one_iff.1 hlength
    obtain rfl : (b, e) = p := by simpa [hp] using he
    simp [Choice.traverser, hp]
  · trivial

end GraphSelect
