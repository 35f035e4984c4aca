import GraphSelect.Proofs.Clauses
import GraphSelect.Proofs.Joins
import GraphSelect.Proofs.Rules

/-!
The order of the steps of a query.

Each clause has its place in a traversal, and what it becomes there is of one kind. A condition,
nested to any depth, adds nothing but filters. Rows are grouped, ordered and projected by values
that have a constant to fall back on, and so none of them is lost to a value that is missing. How
many rows are kept is said by one step at most, which stands before the projection unless it is the
projected rows that have to be distinct.
-/

namespace GraphSelect

/-! ### Kinds of steps -/

/-- Whether a step keeps or drops what comes in and does nothing else. -/
def Step.isFilter (s : Step) : Bool :=
  ["has", "hasNot", "where", "and", "or", "not"].contains s.name

/-- Filters, and at least one of them. -/
structure Selects (v : Steps) : Prop where
  nonempty : v ≠ []
  isFilter : ∀ s ∈ v, s.isFilter

/-- The steps of a condition, which are there if and only if the condition is. -/
def SelectsIf (given : Bool) (v : Steps) : Prop :=
  if given then Selects v else v = []

/-- A value that is replaced by a constant where it is missing, so that it never is. -/
structure FallsBack (v : Steps) : Prop where
  coalesces : ∃ w x, v = [.coalesce w [.constant x]]
  emits : ∀ {E D : Type} [DecidableEq E] (x : Executor E D) (t : Traverser E D), x.run v t ≠ []

/-- A map of values under names, none of which is missing. -/
def Projects (names : List String) (v : Steps) : Prop :=
  ∃ values : List Steps, values.length = names.length ∧ (∀ w ∈ values, FallsBack w) ∧
    v = .project names :: values.map .by_

/-- An ordering by so many values, none of which is missing. -/
def Orders (count : Nat) (v : Steps) : Prop :=
  ∃ values : List (Steps × SortOrder), values.length = count ∧ (∀ w ∈ values, FallsBack w.1) ∧
    v = .order :: values.map fun w => .byOrdered w.1 w.2

/-- Groups that rows are put in, by a map of keys if there are any. Rows with several places are
gathered into one map first. -/
def GroupsRows (several keyed : Bool) (v : Steps) : Prop :=
  ∃ gathering grouping, v = gathering ++ grouping ∧
    gathering.map (·.name) = (if several then ["select"] else []) ∧
    if keyed then ∃ names keys, Projects names keys ∧
      grouping = [.group, .by_ keys, .by_ [.fold], .unfold]
    else grouping = [.fold]

/-- One more table: where the traversal goes from the place of another one, to which it may have to
go back first. -/
structure Hop where
  back : Bool
  direction : Direction

def Hop.names (h : Hop) : List String :=
  (if h.back then ["select"] else []) ++
    [match h.direction with | .out => "out" | .in => "in", "hasLabel", "as"]

/-- The names of steps to a first table and by a hop for every join to the others. Edges are not
joined. -/
def LeadsOver (joins : Nat) (names : List String) : Prop :=
  ∃ (start : String) (hops : List Hop), (start = "V" ∨ start = "E" ∧ joins = 0) ∧
    hops.length = joins ∧ names = start :: "hasLabel" :: "as" :: hops.flatMap Hop.names

def Value.isLess (v w : Value) : Bool :=
  v.quantity?.any fun a => w.quantity?.any (a.less ·)

/-- The number of rows that are kept: the least of the limits given. -/
inductive Limits (given : List Value) : Steps → Prop
  | none (h : given = []) : Limits given []
  | some {v : Value} (hv : v ∈ given) (hleast : ∀ w ∈ given, w.isLess v = false) :
      Limits given [.limit v]

/-- The number of joins in a `FROM` clause. -/
def Node.joins : Node → Nat
  | .join left _ _ _ => left.joins + 1
  | _ => 0

/-- The limits that are given for the rows of a query, where `NULL` is none. -/
def Select.limits (q : Select) (maxRows : Option Int) : List Value :=
  let asked := (q.limit.map (·.value)).bind fun
    | .null => none
    | v => some v
  asked.toList ++ maxRows.toList.map .int

/-- What the clauses of a query become, each in its place. -/
structure Clauses.InOrder (x : Clauses) (q : Select) (maxRows : Option Int) : Prop where
  source : ∃ n, q.source = some n ∧ LeadsOver n.joins (x.source.map (·.name)) ∧
    if q.needsGrouping then GroupsRows (n.joins ≠ 0) (q.groupBy ≠ []) x.grouping
    else x.grouping = []
  filter : SelectsIf q.filter.isSome x.filter
  having : SelectsIf q.having.isSome x.having
  sorting : if q.orderBy = [] then x.sorting = [] else Orders q.orderBy.length x.sorting
  items : x.items.length = q.items.length
  projection : Projects (x.items.map (·.name)) x.projection
  limit : Limits (q.limits maxRows) (limitSteps q.limit maxRows)

/-! ### Conditions -/

namespace Selects

lemma singleton {s : Step} (h : s.isFilter) : Selects [s] :=
  ⟨List.cons_ne_nil _ _, by simpa using h⟩

lemma whereEmits (v : Steps) : Selects [.whereEmits v] := .singleton rfl

lemma not (v : Steps) : Selects [.not v] := .singleton rfl

lemma append {v w : Steps} (hv : ∀ s ∈ v, s.isFilter) (hw : Selects w) : Selects (v ++ w) where
  nonempty := by simp [hw.nonempty]
  isFilter := List.forall_mem_append.2 ⟨hv, hw.isFilter⟩

end Selects

namespace Operand

variable {s : Scope} {o : Operand} {v : Steps}

lemma selects_columnFilter {i : Identifier} {f : String → Step} (hf : ∀ p, (f p).isFilter)
    (h : columnFilter s i f = .ok v) : Selects v := by
  obtain ⟨⟨b, c⟩, -, rfl⟩ := Outcome.map_eq_ok.1 h
  dsimp only [Scope.elementFilter]
  split
  · exact .singleton (hf c.property)
  · exact .whereEmits _

lemma selects_presence (h : Becomes .presence s o v) : Selects v := by
  cases h with
  | has _ h => exact selects_columnFilter (fun _ => rfl) h
  | present => exact .whereEmits _

lemma selects_absence (h : Becomes .absence s o v) : Selects v := by
  cases h with
  | hasNot _ h => exact selects_columnFilter (fun _ => rfl) h
  | absent => exact .not _

theorem isFilter_guard : ∀ {o : Operand} {v : Steps}, Becomes .guard s o v →
    ∀ st ∈ v, st.isFilter
  | _, _, .guardColumn h => (selects_presence h).isFilter
  | _, _, .guardNone _ => by simp
  | _, _, .guardMore h hg => List.forall_mem_append.2 ⟨(selects_presence h).isFilter, isFilter_guard hg⟩
  | _, _, .guardSkip hg => isFilter_guard hg

/-- A predicate is all filters. -/
lemma selects_own {c : Call} {text label : String} {os : List Operand}
    (hc : c.operator.isPredicate) (h : Becomes .itself s (.apply c text label os) v) :
    Selects v := by
  cases h with
  | isNull _ h => exact selects_absence h
  | isNotNull _ h => exact selects_presence h
  | not _ hg => exact .append (isFilter_guard hg) (.not _)
  | compareColumn _ _ _ h => exact selects_columnFilter (fun _ => rfl) h
  | compareConstant => exact .whereEmits _
  | compare => exact .whereEmits _
  | and => exact .singleton rfl
  | or => exact .singleton rfl
  | _ => simp_all [Operator.isPredicate, Operator.family]

lemma selects_filter (h : o.filter s = .ok v) : Selects v := by
  unfold filter filterFrom at h
  split at h
  · split at h
    · next hc => exact selects_own hc (becomes_own h)
    · obtain ⟨w, -, rfl⟩ := Outcome.map_eq_ok.1 h
      exact .whereEmits _
  · obtain ⟨w, -, rfl⟩ := Outcome.map_eq_ok.1 h
    exact .whereEmits _

end Operand

lemma Filters.selectsIf {s : Scope} {n : Option Node} {v : Steps} (h : Filters s n v) :
    SelectsIf n.isSome v := by
  cases h with
  | none => rfl
  | some _ hv => exact Operand.selects_filter hv

/-! ### Values that are never missing -/

lemma fallsBack_coalesce (v : Steps) (d : Value) : FallsBack [.coalesce v [.constant d]] where
  coalesces := ⟨v, d, rfl⟩
  emits x t := by
    rw [x.run_coalesce, x.run_constant]
    split
    · simp
    · next h => simpa using h

lemma projects_orMark {names : List String} {values : List Steps}
    (h : values.length = names.length) :
    Projects names (.project names :: values.map fun v => .by_ (orMark v)) := by
  refine ⟨values.map orMark, by simpa using h, ?_, by simp⟩
  exact List.forall_mem_map.2 fun v _ => fallsBack_coalesce v _

variable {s s' : Scope} {v : Steps}

lemma projects_keySteps (keys : List (String × Steps)) :
    Projects (keys.map (·.1)) (keySteps keys) := by
  have : Projects (keys.map (·.1))
      (.project (keys.map (·.1)) :: (keys.map (·.2)).map fun v => .by_ (orMark v)) :=
    projects_orMark (by simp)
  rwa [List.map_map] at this

lemma projects_projectionSteps {items : List Item} (h : projectionSteps s items = .ok v) :
    Projects (items.map (·.name)) v := by
  obtain ⟨values, hvalues, h⟩ := Outcome.bind_eq_ok.1 h
  cases h
  exact projects_orMark (by simpa using (Outcome.forall₂_of_mapM hvalues).length_eq.symm)

lemma exists_sortStep {items : List Item} {key : SortKey Node} {st : Step}
    (h : sortStep s items key = .ok st) :
    ∃ w : Steps × SortOrder, FallsBack w.1 ∧ st = .byOrdered w.1 w.2 := by
  obtain ⟨o, -, h⟩ := Outcome.bind_eq_ok.1 h
  obtain ⟨value, -, h⟩ := Outcome.bind_eq_ok.1 h
  cases h
  exact ⟨(_, _), fallsBack_coalesce value _, rfl⟩

lemma orders_orderSteps {items : List Item} {keys : List (SortKey Node)} (hkeys : keys ≠ [])
    (h : orderSteps s items keys = .ok v) : Orders keys.length v := by
  unfold orderSteps at h
  rw [if_neg (by simpa using hkeys)] at h
  obtain ⟨steps, hsteps, h⟩ := Outcome.bind_eq_ok.1 h
  cases h
  have hmodulators : ∀ st ∈ steps, ∃ w : Steps × SortOrder,
      FallsBack w.1 ∧ st = .byOrdered w.1 w.2 := by
    intro st hst
    obtain ⟨key, -, hkey⟩ := (Outcome.mapM_eq_ok hsteps).1 st hst
    exact exists_sortStep hkey
  choose! modulator hmodulator using hmodulators
  refine ⟨steps.map modulator, ?_, List.forall_mem_map.2 fun st hst => (hmodulator st hst).1, ?_⟩
  · simpa using (Outcome.forall₂_of_mapM hsteps).length_eq.symm
  · have hsteps : steps = steps.map fun st => .byOrdered (modulator st).1 (modulator st).2 :=
      (List.map_id' steps).symm.trans (List.map_congr_left fun st hst => (hmodulator st hst).2)
    rw [List.map_map]
    exact congrArg _ hsteps

/-! ### Tables and groups -/

lemma Walk.name_step (w : Walk) :
    w.step.name = match w.direction with | .out => "out" | .in => "in" := by
  obtain ⟨edge, _ | _⟩ := w <;> rfl

/-- A join goes one hop on. -/
lemma exists_hop {t : TableRef} {condition : Option Node}
    (h : joinSteps s t condition = .ok (s', v)) : ∃ hop : Hop, v.map (·.name) = hop.names := by
  obtain ⟨b, table, w, -, -, -, -, -, rfl⟩ := joinSteps_cases h
  refine ⟨⟨s.currentLabel? ≠ some b.name, w.direction⟩, ?_⟩
  by_cases hb : s.currentLabel? = some b.name <;>
    simp [hb, Hop.names, w.name_step, Step.select, Step.hasLabel, Step.label, Step.of]

/-- The first table is one of vertices if another is joined to it. -/
lemma exists_hops {c : Catalog} {n : Node} (h : sourceSteps (.initial c) n = .ok (s, v)) :
    s.bindings.length = n.joins + 1 ∧ ∃ (start : String) (hops : List Hop),
      (start = "V" ∨ start = "E" ∧ n.joins = 0 ∧ ∀ b ∈ s.bindings, b.table.isVertex = false) ∧
      hops.length = n.joins ∧
      v.map (·.name) = start :: "hasLabel" :: "as" :: hops.flatMap Hop.names := by
  fun_induction sourceSteps (.initial c) n generalizing s v with
  | case1 t =>
    obtain ⟨table, -, hs, rfl⟩ := tableSteps_cases h
    obtain ⟨-, rfl⟩ := Scope.bind_eq_ok hs
    refine ⟨rfl, if table.isVertex then "V" else "E", [], ?_, rfl, ?_⟩
    · cases htable : table.isVertex <;> simp [Scope.initial, Node.joins, htable]
    · cases table.isVertex <;> rfl
  | case2 left t condition ih =>
    obtain ⟨⟨s₁, before⟩, hleft, h⟩ := Outcome.bind_eq_ok.1 h
    obtain ⟨⟨s₂, after⟩, hjoin, h⟩ := Outcome.bind_eq_ok.1 h
    cases h
    obtain ⟨hcount, start, hops, hstart, hlength, hnames⟩ := ih hleft
    obtain ⟨hop, hhop⟩ := exists_hop hjoin
    obtain ⟨b, table, w, hb, -, hvertex, -, hs, -⟩ := joinSteps_cases hjoin
    obtain ⟨-, rfl⟩ := Scope.bind_eq_ok hs
    refine ⟨by simp [Node.joins, hcount], start, hops ++ [hop], .inl ?_,
      by simp [Node.joins, hlength], by simp [hnames, hhop]⟩
    rcases hstart with rfl | ⟨-, -, hedges⟩
    · rfl
    · simp [hedges b hb] at hvertex
  | _ => simp_all

/-- There are keys where there is anything to group by. -/
lemma groupKeysFrom_eq_nil {keys : List (String × Steps)} {ns : List Node}
    (h : groupKeysFrom s [] ns = .ok keys) : keys = [] ↔ ns = [] := by
  constructor
  · rintro rfl
    refine List.eq_nil_iff_forall_not_mem.2 fun n hn => ?_
    obtain ⟨o, name, -, -, hname⟩ := (exists_keyName h).2 n hn
    simp at hname
  · rintro rfl
    cases h
    rfl

lemma groupsRows_grouped {groupBy : List Node} (h : grouped s groupBy = .ok (s', v)) :
    GroupsRows (s.bindings.length ≠ 1) (groupBy ≠ []) v := by
  obtain ⟨keys, hkeys, h⟩ := Outcome.bind_eq_ok.1 h
  cases h
  refine ⟨_, _, rfl, ?_, ?_⟩
  · by_cases hone : s.bindings.length = 1 <;> simp [Scope.isSingleTable, hone, Step.select, Step.of]
  · have hkeyed : keys = [] ↔ groupBy = [] := groupKeysFrom_eq_nil hkeys
    by_cases hnone : groupBy = []
    · simp [hnone, hkeyed.2 hnone]
    · have hsome : keys ≠ [] := mt hkeyed.1 hnone
      rw [if_pos (by simpa using hnone), if_neg (by simpa using hsome)]
      exact ⟨_, _, projects_keySteps keys, rfl⟩

/-! ### Limits -/

lemma Quantity.less_asymm {a b : Quantity} (h : a.less b) : b.less a = false := by
  have hlt : a.order b = .lt := by simpa [less] using h
  simp [less, ← order_swap a b, hlt]

namespace Value

lemma isLess_asymm {v w : Value} (h : v.isLess w) : w.isLess v = false := by
  unfold isLess at h ⊢
  generalize v.quantity? = a, w.quantity? = b at h ⊢
  obtain _ | a := a
  · simp at h
  · obtain _ | b := b
    · simp at h
    · exact Quantity.less_asymm h

lemma isLess_self (v : Value) : v.isLess v = false := by
  cases h : v.isLess v with
  | false => rfl
  | true => exact h.symm.trans (isLess_asymm h)

end Value

/-- Of two limits the smaller one counts. -/
lemma limits_pair (v : Value) (rows : Int) :
    Limits [v, .int rows] [.limit (if (Value.int rows).isLess v then .int rows else v)] := by
  split
  · next h => exact .some (by simp) (by simp [Value.isLess_asymm h, Value.isLess_self])
  · next h => exact .some (by simp) (by simpa [Value.isLess_self] using h)

lemma limits_singleton (v : Value) : Limits [v] [.limit v] :=
  .some List.mem_cons_self (by simp [Value.isLess_self])

lemma limits_limitSteps (q : Select) (maxRows : Option Int) :
    Limits (q.limits maxRows) (limitSteps q.limit maxRows) := by
  unfold limitSteps effectiveLimit Select.limits
  generalize (q.limit.map (·.value)).bind _ = asked
  obtain _ | v := asked <;> obtain _ | rows := maxRows
  · exact .none rfl
  · exact limits_singleton _
  · exact limits_singleton _
  · exact limits_pair v rows

/-! ### Whole queries -/

lemma Clauses.Of.inOrder {x : Clauses} {c : Catalog} {q : Select} (hx : x.Of c q)
    (maxRows : Option Int) : x.InOrder q maxRows := by
  obtain ⟨n, hn, hsource⟩ := hx.source
  obtain ⟨hcount, start, hops, hstart, hlength, hnames⟩ := exists_hops hsource
  have hleads : LeadsOver n.joins (x.source.map (·.name)) :=
    ⟨start, hops, hstart.imp_right fun ⟨hs, hj, _⟩ => ⟨hs, hj⟩, hlength, hnames⟩
  have hgrouping := hx.grouping
  have hsorting := hx.sorting
  refine ⟨⟨n, hn, hleads, ?_⟩, hx.filter.selectsIf, hx.having.selectsIf, ?_,
    (forall₂_itemsFrom hx.items).length_eq.symm, projects_projectionSteps hx.projection,
    limits_limitSteps q maxRows⟩
  · by_cases hq : q.needsGrouping
    · rw [if_pos hq] at hgrouping ⊢
      simpa [hcount] using groupsRows_grouped hgrouping
    · rw [if_neg hq] at hgrouping ⊢
      exact hgrouping.2
  · by_cases hnone : q.orderBy = []
    · rw [hnone] at hsorting
      rw [if_pos hnone]
      exact (Except.ok.inj hsorting).symm
    · rw [if_neg hnone]
      exact orders_orderSteps hnone hsorting

/-- **The steps of a query stand in the order of its clauses.** Tables, condition, groups, the
condition on groups and the ordering each have the steps that are theirs, if the query has them.
The projection comes behind the limit, or before it where the projected rows have to be distinct.
All that rows are grouped, ordered and projected by falls back on a constant. -/
theorem plan_follows_clauses {c : Catalog} {source : Option String} {maxRows : Option Int}
    {q : Select} {p : Plan} (h : plan c source maxRows q = .ok p) :
    ∃ x : Clauses, x.InOrder q maxRows ∧ p.traversal = ⟨source, x.steps q maxRows⟩ ∧
      p.columns.map (·.name) = x.items.map (·.name) := by
  obtain ⟨x, hx, hp, hcolumns⟩ := plan_eq_ok h
  exact ⟨x, hx.inOrder maxRows, hp, by simp [hcolumns]⟩

namespace People

/-- A query with all clauses, over two tables. -/
def summary : String :=
  "SELECT DISTINCT p.age, COUNT(*) AS n FROM person p JOIN person q ON p.age = q.age " ++
    "WHERE NOT q.age = 3 GROUP BY p.age HAVING COUNT(*) > 1 ORDER BY n LIMIT 9"

theorem summary_follows_clauses : ∃ q p, plan catalog (some "g") (some 4) q = .ok p ∧
    ∃ x : Clauses, x.InOrder q (some 4) ∧ p.traversal = ⟨some "g", x.steps q (some 4)⟩ ∧
      p.columns.map (·.name) = x.items.map (·.name) := by
  obtain ⟨p, hp⟩ := Converter.exists_of_isOk
    (show ((⟨catalog, some "g", some 4⟩ : Converter).convert summary).isOk by decide +kernel)
  obtain ⟨-, q, -, -, hplan⟩ := Converter.convert_eq_ok hp
  exact ⟨q, p, hplan, plan_follows_clauses hplan⟩

/-- `SELECT 1 FROM person LIMIT NULL`, which has no text. -/
def unlimited : Select where
  distinct := false
  items := [.literal ⟨.int 1, .integer⟩]
  source := some (.table ⟨"person", none⟩)
  filter := none
  groupBy := []
  having := none
  orderBy := []
  limit := some ⟨.null, .null⟩
  offset := none

/-- A limit that is `NULL` leaves no step. -/
theorem unlimited_has_no_limit : ∃ p, plan catalog (some "g") none unlimited = .ok p ∧
    unlimited.limit.isSome ∧ "limit" ∉ p.traversal.stepNames := by
  obtain ⟨p, hp⟩ : ∃ p, plan catalog (some "g") none unlimited = .ok p := ⟨_, rfl⟩
  refine ⟨p, hp, rfl, ?_⟩
  cases hp
  decide

end People

end GraphSelect
