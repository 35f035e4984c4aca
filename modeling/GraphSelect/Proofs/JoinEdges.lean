import GraphSelect.Proofs.Joins

/-!
The edges that tables are joined along.

An edge joins two tables if it leads from rows of one to rows of the other, and if its key columns,
should it have any, are the columns that the join equates. Every edge is tried forwards and
backwards before the next one. Since two tables with different names cannot be joined along one edge
both ways, the first edge that joins them is the same from either side, and is walked in opposite
directions.
-/

namespace GraphSelect

@[simp] lemma Direction.opposite_opposite (d : Direction) : d.opposite.opposite = d := by
  cases d <;> rfl

lemma Direction.eq_or_eq_opposite (d e : Direction) : e = d ∨ e = d.opposite := by
  cases d <;> cases e <;> simp [opposite]

/-- The same edge, walked the other way. -/
def Walk.reversed (w : Walk) : Walk := ⟨w.edge, w.direction.opposite⟩

@[simp] lemma Walk.reversed_reversed (w : Walk) : w.reversed.reversed = w := by
  simp [reversed]

lemma sameName_comm (a b : String) : sameName a b = sameName b a := by
  simp [sameName, eq_comm]

lemma sameName_trans {a b c : String} (hab : sameName a b = true) (hbc : sameName b c = true) :
    sameName a c = true := by
  simp only [sameName, decide_eq_true_eq] at *
  exact hab.trans hbc

/-! ### Edges between two tables -/

namespace Edge

/-- The table at the end of an edge where a walk along it begins. -/
def nearTable (e : Edge) : Direction → String
  | .out => e.outTable
  | .in => e.inTable

/-- The key column at the end of an edge where a walk along it begins. -/
def nearColumn (e : Edge) : Direction → Option String
  | .out => e.outColumn
  | .in => e.inColumn

/-- A key column and the column of a join that it is, in any case. -/
def IsColumn (key column : Option String) : Prop :=
  ∃ k l, key = some k ∧ column = some l ∧ sameName k l = true

/-- An edge that joins table `a` to table `b` over two of their columns when it is walked in a
direction: it is tied to no columns, or to these. -/
structure Joins (e : Edge) (a b : String) (columnA columnB : Option String) (d : Direction) :
    Prop where
  near : sameName (e.nearTable d) a = true
  far : sameName (e.nearTable d.opposite) b = true
  columns : (∀ d', e.nearColumn d' = none) ∨
    IsColumn (e.nearColumn d) columnA ∧ IsColumn (e.nearColumn d.opposite) columnB

variable {e : Edge} {a b : String} {columnA columnB : Option String} {d d' : Direction}

/-- What an edge joins, it joins from the other side as well. -/
lemma Joins.reversed (h : e.Joins a b columnA columnB d) :
    e.Joins b a columnB columnA d.opposite where
  near := h.far
  far := by simpa using h.near
  columns := h.columns.imp_right fun ⟨ha, hb⟩ => ⟨hb, by simpa using ha⟩

/-- An edge joins two different tables in one direction at most. -/
lemma Joins.direction_unique (hab : sameName a b = false) (h : e.Joins a b columnA columnB d)
    (h' : e.Joins a b columnA columnB d') : d = d' := by
  rcases d.eq_or_eq_opposite d' with rfl | rfl
  · rfl
  · have : sameName a b = true := sameName_trans (sameName_comm _ _ ▸ h'.near) h.far
    simp [hab] at this

end Edge

/-! ### Looking for an edge -/

namespace Catalog

variable {c : Catalog} {e : Edge} {a b : String} {columnA columnB : Option String} {w : Walk}

lemma sameGiven_iff {key column : Option String} :
    sameGiven key column = true ↔ Edge.IsColumn key column := by
  cases key <;> cases column <;> simp [sameGiven, Edge.IsColumn]

lemma keysMatch_iff {d : Direction} :
    keysMatch (e.nearColumn d) (e.nearColumn d.opposite) columnA columnB = true ↔
      (∀ d', e.nearColumn d' = none) ∨ Edge.IsColumn (e.nearColumn d) columnA ∧
        Edge.IsColumn (e.nearColumn d.opposite) columnB := by
  have hnone : (∀ d', e.nearColumn d' = none) ↔
      e.nearColumn d = none ∧ e.nearColumn d.opposite = none := by
    refine ⟨fun h => ⟨h _, h _⟩, fun ⟨hnear, hfar⟩ d' => ?_⟩
    rcases d.eq_or_eq_opposite d' with rfl | rfl <;> assumption
  simp only [keysMatch, Bool.or_eq_true, Bool.and_eq_true, Option.isNone_iff_eq_none,
    sameGiven_iff, hnone]

/-- The test of an edge in one direction. -/
lemma joins_iff (d : Direction) :
    (sameName (e.nearTable d) a && sameName (e.nearTable d.opposite) b &&
        keysMatch (e.nearColumn d) (e.nearColumn d.opposite) columnA columnB) = true ↔
      e.Joins a b columnA columnB d := by
  rw [Bool.and_eq_true, Bool.and_eq_true, keysMatch_iff]
  exact ⟨fun ⟨⟨hnear, hfar⟩, hcolumns⟩ => ⟨hnear, hfar, hcolumns⟩,
    fun ⟨hnear, hfar, hcolumns⟩ => ⟨⟨hnear, hfar⟩, hcolumns⟩⟩

/-- An edge between different tables is walked in the direction in which it joins them. -/
lemma walkAlong?_eq_some (hab : sameName a b = false) :
    walkAlong? a b columnA columnB e = some w ↔
      w.edge = e ∧ e.Joins a b columnA columnB w.direction := by
  have hout : _ ↔ e.Joins a b columnA columnB .out := joins_iff .out
  have hin : _ ↔ e.Joins a b columnA columnB .in := joins_iff .in
  simp only [Edge.nearTable, Edge.nearColumn, Direction.opposite] at hout hin
  obtain ⟨edge, d⟩ := w
  unfold walkAlong?
  split
  · next h =>
    have hjoins := hout.1 h
    constructor
    · rintro ⟨⟩
      exact ⟨rfl, hjoins⟩
    · rintro ⟨rfl, hd⟩
      rw [hjoins.direction_unique hab hd]
  · next hnot =>
    split
    · next h =>
      have hjoins := hin.1 h
      constructor
      · rintro ⟨⟩
        exact ⟨rfl, hjoins⟩
      · rintro ⟨rfl, hd⟩
        rw [hjoins.direction_unique hab hd]
    · next hnot' =>
      constructor
      · rintro ⟨⟩
      · rintro ⟨-, hd⟩
        cases d with
        | out => exact absurd (hout.2 hd) hnot
        | «in» => exact absurd (hin.2 hd) hnot'

lemma walkAlong?_eq_none (hab : sameName a b = false) :
    walkAlong? a b columnA columnB e = none ↔ ∀ d, ¬ e.Joins a b columnA columnB d := by
  rw [Option.eq_none_iff_forall_ne_some]
  refine ⟨fun h d hd => h ⟨e, d⟩ ((walkAlong?_eq_some hab).2 ⟨rfl, hd⟩), fun h w hw => ?_⟩
  obtain ⟨-, hd⟩ := (walkAlong?_eq_some hab).1 hw
  exact h _ hd

/-- The first edge of a catalog that joins two tables, and the direction in which it does. -/
structure IsFirstWalk (c : Catalog) (a b : String) (columnA columnB : Option String) (w : Walk) :
    Prop where
  joins : w.edge.Joins a b columnA columnB w.direction
  first : ∃ before after, c.edges = before ++ w.edge :: after ∧
    ∀ e ∈ before, ∀ d, ¬ e.Joins a b columnA columnB d

lemma IsFirstWalk.reversed (h : c.IsFirstWalk a b columnA columnB w) :
    c.IsFirstWalk b a columnB columnA w.reversed where
  joins := h.joins.reversed
  first := by
    obtain ⟨before, after, hedges, hbefore⟩ := h.first
    exact ⟨before, after, hedges, fun e he d hd => hbefore e he _ hd.reversed⟩

/-- The walk from a table to a different one is along the first edge that joins them. -/
theorem walk_eq_ok (hab : sameName a b = false) :
    c.walk a b columnA columnB = .ok w ↔ c.IsFirstWalk a b columnA columnB w := by
  have hfound : c.walk a b columnA columnB = .ok w ↔
      c.edges.findSome? (walkAlong? a b columnA columnB) = some w := by
    unfold walk
    split
    · next w' hw' => simp [hw']
    · next hnone => simp [hnone]
  rw [hfound, List.findSome?_eq_some_iff]
  constructor
  · rintro ⟨before, e, after, hedges, he, hbefore⟩
    obtain ⟨rfl, hjoins⟩ := (walkAlong?_eq_some hab).1 he
    exact ⟨hjoins, before, after, hedges, fun e he => (walkAlong?_eq_none hab).1 (hbefore e he)⟩
  · rintro ⟨hjoins, before, after, hedges, hbefore⟩
    exact ⟨before, w.edge, after, hedges, (walkAlong?_eq_some hab).2 ⟨rfl, hjoins⟩,
      fun e he => (walkAlong?_eq_none hab).2 (hbefore e he)⟩

end Catalog

/-! ### Joins written the other way round -/

section

variable {c : Catalog} {s s' : Scope} {t u : TableRef} {T U : Table} {on : Option Node} {w : Walk}
  {steps : Steps}

/-- The sides of the equality of a join can change places. -/
lemma joinColumns_swap (f : Call) (x y : Node) (name : String) :
    joinColumns (some (.call f [x, y])) name = joinColumns (some (.call f [y, x])) name := by
  obtain ⟨op, distinct, type⟩ := f
  by_cases hop : op = .comparison .equal
  · subst hop
    cases x <;> cases y <;> try rfl
    next i j =>
      unfold joinColumns
      dsimp only
      generalize i.names = a
      generalize j.names = b
      rcases a with _ | ⟨a, _ | ⟨k, _ | _⟩⟩ <;> rcases b with _ | ⟨b, _ | ⟨l, _ | _⟩⟩ <;> try rfl
      dsimp only
      by_cases ha : a = name <;> by_cases hb : b = name <;> simp [ha, hb]
  · have hnot : ∀ args, joinColumns (some (.call ⟨op, distinct, type⟩ args)) name =
        .fault (.joinNotSupported "the ON clause must equate two qualified columns") := by
      intro args
      unfold joinColumns
      split <;> simp_all
    rw [hnot, hnot]

lemma joinSteps_swap (s : Scope) (t : TableRef) (f : Call) (x y : Node) :
    joinSteps s t (some (.call f [x, y])) = joinSteps s t (some (.call f [y, x])) := by
  unfold joinSteps
  simp only [joinColumns_swap f x y]

lemma Equates.symm {a b : String} {i j : Identifier} (h : Equates a b i j on) :
    Equates b a j i on := by
  cases h with
  | forth hf hi hj => exact .back hf hj hi
  | back hf hi hj => exact .forth hf hj hi

/-- The scope of two tables, bound one after the other. -/
def Scope.ofTwo (c : Catalog) (t : TableRef) (T : Table) (u : TableRef) (U : Table) : Scope :=
  ⟨c, [⟨t.binding, T⟩, ⟨u.binding, U⟩], none, false⟩

/-- The steps from the rows of one table to those of another, along an edge between them. -/
def Walk.joinedSteps (w : Walk) (t : TableRef) (T : Table) (u : TableRef) (U : Table) : Steps :=
  [.vertices, .hasLabel T.label, .label t.binding, w.step, .hasLabel U.label, .label u.binding]

/-- Two tables of vertices, joined along an edge. -/
structure JoinsTwo (c : Catalog) (t : TableRef) (T : Table) (u : TableRef) (U : Table)
    (on : Option Node) (w : Walk) : Prop where
  left : c.table t.name = .ok T
  vertexLeft : T.isVertex
  vertexRight : U.isVertex
  along : JoinsAlong c u on ⟨t.binding, T⟩ U w

lemma JoinsTwo.reversed (hne : sameName T.name U.name = false) (h : JoinsTwo c t T u U on w) :
    JoinsTwo c u U t T on w.reversed := by
  obtain ⟨hleft, hT, hU, hfound, hother, i, j, hequates, hwalk⟩ := h
  have hwalk : c.walk U.name T.name (some j.simple) (some i.simple) = .ok w.reversed :=
    (Catalog.walk_eq_ok (sameName_comm _ _ ▸ hne)).2 ((Catalog.walk_eq_ok hne).1 hwalk).reversed
  exact ⟨hfound, hU, hT, hleft, hother.symm, j, i, hequates.symm, hwalk⟩

/-- The steps of a join of two tables start at the first and walk along the edge to the second. -/
lemma sourceSteps_join :
    sourceSteps (.initial c) (.join (.table t) .inner (.table u) on) = .ok (s, steps) ↔
      ∃ T U w, JoinsTwo c t T u U on w ∧ s = .ofTwo c t T u U ∧
        steps = w.joinedSteps t T u U := by
  constructor
  · intro h
    rw [sourceSteps, sourceSteps] at h
    obtain ⟨⟨s₁, before⟩, ht, h⟩ := Outcome.bind_eq_ok.1 h
    obtain ⟨⟨s₂, after⟩, hu, h⟩ := Outcome.bind_eq_ok.1 h
    cases h
    obtain ⟨T, hT, hbind, rfl⟩ := tableSteps_cases ht
    obtain ⟨-, rfl⟩ := Scope.bind_eq_ok hbind
    obtain ⟨b, U, w, hb, hjoins, hbv, hUv, hbind, rfl⟩ := joinSteps_cases hu
    obtain ⟨-, rfl⟩ := Scope.bind_eq_ok hbind
    obtain rfl : b = ⟨t.binding, T⟩ := by simpa [Scope.initial] using hb
    refine ⟨T, U, w, ⟨hT, hbv, hUv, hjoins⟩, rfl, ?_⟩
    have hT : T.isVertex = true := hbv
    simp [Walk.joinedSteps, hT, Scope.currentLabel?, Scope.labels, Scope.initial]
  · rintro ⟨T, U, w, ⟨hT, hTv, hUv, hU, hother, i, j, hequates, hwalk⟩, rfl, rfl⟩
    have hcolumns : joinColumns on u.binding = .ok (i, j) :=
      joinColumns_eq_ok.2 ⟨_, hother, hequates⟩
    obtain ⟨k, hk⟩ := hequates.names
    have ht : tableSteps (.initial c) t = .ok (⟨c, [⟨t.binding, T⟩], none, false⟩,
        [.vertices, .hasLabel T.label, .label t.binding]) := by
      simp [tableSteps, Scope.initial, Scope.bind, Scope.binding?, hT, hTv]
    have hu : joinSteps ⟨c, [⟨t.binding, T⟩], none, false⟩ u on = .ok (.ofTwo c t T u U,
        [w.step, .hasLabel U.label, .label u.binding]) := by
      simp only at hwalk hother hk
      simp [joinSteps, hU, hcolumns, hk, Scope.binding, Scope.binding?, hTv, hUv, hwalk,
        Scope.currentLabel?, Scope.labels, Scope.bind, hother, Scope.ofTwo]
      rfl
    rw [sourceSteps, sourceSteps, ht]
    simp [hu, Walk.joinedSteps]

/-- **Joins walk the same edge from either side.** Two tables with different names are joined over
two of their columns if and only if they are joined the other way round. The edge is the first of
the catalog that joins them and is tied to no columns or to just these, and the other way round it
is walked backwards. So a join can be written with its tables or the sides of its equality changed
over, and still walks that edge. -/
theorem walk_reversed {a b : String} (hab : sameName a b = false) (c : Catalog)
    (columnA columnB : Option String) :
    ((∃ w, c.walk a b columnA columnB = .ok w) ↔ ∃ w, c.walk b a columnB columnA = .ok w) ∧
    (∀ w, c.walk a b columnA columnB = .ok w ↔ c.walk b a columnB columnA = .ok w.reversed) ∧
    (∀ w, c.walk a b columnA columnB = .ok w ↔ c.IsFirstWalk a b columnA columnB w) ∧
    (∀ s t f x y,
      joinSteps s t (some (.call f [x, y])) = joinSteps s t (some (.call f [y, x]))) ∧
    ∀ t u T U on s steps, c.table t.name = .ok T → c.table u.name = .ok U →
      T.name = a → U.name = b →
      sourceSteps (.initial c) (.join (.table t) .inner (.table u) on) = .ok (s, steps) →
      ∃ w : Walk, (∃ i j, c.walk a b (some i) (some j) = .ok w) ∧
        steps = w.joinedSteps t T u U ∧
        sourceSteps (.initial c) (.join (.table u) .inner (.table t) on) =
          .ok (.ofTwo c u U t T, w.reversed.joinedSteps u U t T) := by
  have hba : sameName b a = false := sameName_comm a b ▸ hab
  have hreversed (w : Walk) :
      c.walk a b columnA columnB = .ok w ↔ c.walk b a columnB columnA = .ok w.reversed := by
    rw [Catalog.walk_eq_ok hab, Catalog.walk_eq_ok hba]
    exact ⟨.reversed, fun h => by simpa using h.reversed⟩
  refine ⟨⟨fun ⟨w, hw⟩ => ⟨_, (hreversed w).1 hw⟩, fun ⟨w, hw⟩ => ⟨w.reversed, ?_⟩⟩, hreversed,
    fun w => Catalog.walk_eq_ok hab, joinSteps_swap, ?_⟩
  · exact (hreversed _).2 (by simpa using hw)
  · rintro t u T U on s steps hT hU rfl rfl h
    obtain ⟨T', U', w, hjoins, -, rfl⟩ := sourceSteps_join.1 h
    obtain rfl : T = T' := Except.ok.inj (hT.symm.trans hjoins.left)
    obtain rfl : U = U' := Except.ok.inj (hU.symm.trans hjoins.along.found)
    obtain ⟨i, j, -, hw⟩ := hjoins.along.along
    exact ⟨w, ⟨_, _, hw⟩, rfl, sourceSteps_join.2 ⟨U, T, _, hjoins.reversed hab, rfl, rfl⟩⟩

namespace Fleet

/-- An edge that is tied to one column only is on no join's way. -/
def catalog : Catalog where
  tables :=
    [⟨"person", "person", [⟨"name", "name", .varchar⟩], .vertex⟩,
     ⟨"spaceship", "spaceship", [⟨"owner", "owner", .varchar⟩], .vertex⟩]
  edges :=
    [⟨"keeps", "person", "spaceship", some "name", none⟩,
     ⟨"owns", "spaceship", "person", some "OWNER", some "name"⟩,
     ⟨"pilots", "person", "spaceship", none, none⟩]

/-- The edge of a spaceship to its owner. -/
def owning (d : Direction) : Walk := ⟨⟨"owns", "spaceship", "person", some "OWNER", some "name"⟩, d⟩

/-- From a person to a spaceship the edge is walked backwards, and so it is walked forwards from a
spaceship to a person. -/
theorem walk_owning :
    sameName "Person" "SPACESHIP" = false ∧
      catalog.walk "Person" "SPACESHIP" (some "Name") (some "owner") = .ok (owning .in) ∧
      catalog.walk "SPACESHIP" "Person" (some "owner") (some "Name") = .ok (owning .out) := by
  have hne : sameName "Person" "SPACESHIP" = false := by decide +kernel
  have hwalk : catalog.walk "Person" "SPACESHIP" (some "Name") (some "owner") =
      .ok (owning .in) := by decide +kernel
  exact ⟨hne, hwalk, ((walk_reversed hne catalog _ _).2.1 _).1 hwalk⟩

end Fleet

end

end GraphSelect
