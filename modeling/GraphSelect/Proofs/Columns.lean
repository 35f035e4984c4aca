import GraphSelect.Proofs.ClauseOrder
import GraphSelect.Proofs.Numbers
import Mathlib.Data.List.Nodup

/-!
The columns of a result.

A traversal emits a map for every row, so the columns can be told apart only if no two of them have
one name. A select item gets the name it asks for, or where that is used already a new one, which
is not used by any item before it. The rows can then be read back from the maps, whatever stands in
them beside the columns.
-/

namespace GraphSelect

/-! ### New names -/

lemma append_ofInt_injective (name : String) :
    Function.Injective fun n : Nat => name ++ Text.ofInt n := by
  intro m n h
  have : Text.ofInt m = Text.ofInt n := by simpa using h
  exact Int.ofNat.inj (Text.ofInt_injective this)

/-- One more name than are used cannot all be used. -/
lemma exists_numbered (used : List String) (name : String) :
    ∃ n ∈ List.range (used.length + 1), name ++ Text.ofInt (n : Nat) ∉ used := by
  by_contra! h
  have hnodup := List.nodup_range (n := used.length + 1) |>.map (append_ofInt_injective name)
  have := (List.subperm_of_subset hnodup (List.forall_mem_map.2 h)).length_le
  rw [List.length_map, List.length_range] at this
  omega

lemma freshName_notMem (used : List String) (name : String) : freshName used name ∉ used := by
  unfold freshName
  split
  · dsimp only
    obtain ⟨n, hn, hnew⟩ := exists_numbered used name
    have hfound : (((List.range (used.length + 1)).map fun n : Nat => name ++ Text.ofInt n).find?
        (!used.contains ·)).isSome :=
      List.find?_isSome.2 ⟨_, List.mem_map_of_mem hn, by simpa using hnew⟩
    obtain ⟨m, hm⟩ := Option.isSome_iff_exists.1 hfound
    rw [hm, Option.getD_some]
    simpa using List.find?_some hm
  · next hnew => simpa using hnew

lemma freshName_eq_self {used : List String} {name : String} (h : name ∉ used) :
    freshName used name = name := by
  simp [freshName, h]

/-- The name that a select item asks for: the one it is given, if that is not empty, or that of its
expression. -/
def Node.AsksFor (n : Node) (name : String) : Prop :=
  ∃ e asName o, unnamed n = .ok (e, asName) ∧ Operand.ofNode e = .ok o ∧
    wantedName asName o = .ok name

variable {s : Scope} {used : List String} {ns : List Node} {items : List Item}

lemma name_item {n : Node} {i : Item} (h : item s used n = .ok i) :
    ∃ name, n.AsksFor name ∧ i.name = freshName used name := by
  rw [item_eq] at h
  obtain ⟨⟨e, asName⟩, he, h⟩ := Outcome.bind_eq_ok.1 h
  obtain ⟨o, ho, h⟩ := Outcome.bind_eq_ok.1 h
  obtain ⟨name, hname, h⟩ := Outcome.bind_eq_ok.1 h
  obtain ⟨type, -, h⟩ := Outcome.bind_eq_ok.1 h
  cases h
  exact ⟨name, ⟨e, asName, o, he, ho, hname⟩, rfl⟩

lemma nodup_itemsFrom (h : itemsFrom s used ns = .ok items) :
    (items.map (·.name)).Nodup ∧ ∀ name ∈ items.map (·.name), name ∉ used := by
  induction ns generalizing used items with
  | nil =>
    cases h
    simp
  | cons n ns ih =>
    obtain ⟨i, hi, h⟩ := Outcome.bind_eq_ok.1 h
    obtain ⟨rest, hrest, h⟩ := Outcome.bind_eq_ok.1 h
    cases h
    obtain ⟨name, -, hname⟩ := name_item hi
    obtain ⟨hnodup, hfresh⟩ := ih hrest
    refine ⟨List.nodup_cons.2 ⟨fun hmem => hfresh _ hmem (by simp), hnodup⟩,
      List.forall_mem_cons.2 ⟨?_, fun m hm hold => hfresh m hm (List.mem_append_left _ hold)⟩⟩
    dsimp only
    rw [hname]
    exact freshName_notMem used name

/-- An item gets the name it asks for unless an item before it has that. -/
def KeepsNames (ns : List Node) (names : List String) : Prop :=
  ∀ k n, ns[k]? = some n → ∃ name, n.AsksFor name ∧
    (name ∉ names.take k → names[k]? = some name)

lemma asksFor_itemsFrom (h : itemsFrom s used ns = .ok items) (k : Nat) (n : Node)
    (hn : ns[k]? = some n) : ∃ name, n.AsksFor name ∧
      (name ∉ used ++ (items.map (·.name)).take k →
        (items.map (·.name))[k]? = some name) := by
  induction ns generalizing used items k with
  | nil => simp at hn
  | cons m ns ih =>
    obtain ⟨i, hi, h⟩ := Outcome.bind_eq_ok.1 h
    obtain ⟨rest, hrest, h⟩ := Outcome.bind_eq_ok.1 h
    cases h
    cases k with
    | zero =>
      obtain rfl : m = n := by simpa using hn
      obtain ⟨name, hasks, hname⟩ := name_item hi
      exact ⟨name, hasks, fun hnew => by simp [hname, freshName_eq_self (by simpa using hnew)]⟩
    | succ k =>
      obtain ⟨name, hasks, hname⟩ := ih hrest k (by simpa using hn)
      exact ⟨name, hasks, fun hnew => by simpa using hname (by simpa using hnew)⟩

lemma keepsNames_itemsFrom (h : itemsFrom s [] ns = .ok items) :
    KeepsNames ns (items.map (·.name)) :=
  fun k n hn => by simpa using asksFor_itemsFrom h k n hn

/-! ### Rows and their maps -/

/-- A value as a traversal emits it, with a mark in place of `NULL`. -/
def Value.marked : Value → Value
  | .null => .text nullMark
  | v => v

/-- A row is emitted as a map with its values under the names of the columns. Anything else in the
map is under other names. -/
def EmittedAs (names : List String) (row : List Value) (result : ResultMap) : Prop :=
  ∃ more : ResultMap, (∀ e ∈ more, e.1 ∉ names) ∧
    result.Perm (names.zip (row.map Value.marked) ++ more)

lemma ResultMap.lookup_eq_some {result : ResultMap} {name : String} {v : Value}
    (hmem : (name, v) ∈ result) (hone : ∀ w, (name, w) ∈ result → w = v) :
    result.lookup name = some v := by
  induction result with
  | nil => simp at hmem
  | cons e result ih =>
    obtain ⟨other, w⟩ := e
    by_cases hname : name = other
    · subst hname
      simp [hone w List.mem_cons_self]
    · rw [List.lookup_cons, beq_eq_false_iff_ne.2 hname]
      exact ih (by simpa [hname] using hmem) fun w hw => hone w (List.mem_cons_of_mem _ hw)

lemma cell_marked {result : ResultMap} {name : String} {v : Value} (hv : v ≠ .text nullMark)
    (h : result.lookup name = some v.marked) : result.cell name = v := by
  unfold ResultMap.cell
  rw [h]
  cases v with
  | list vs => rfl
  | scalar c =>
    cases c with
    | null => exact if_pos rfl
    | text s => exact if_neg fun hs => hv (congrArg Value.text hs)
    | _ => rfl

/-- The map of a row has the values of the row under the names of the columns. -/
lemma cell_emittedAs {names : List String} {row : List Value} {result : ResultMap}
    (hnames : names.Nodup) (hlength : row.length = names.length)
    (hrow : ∀ v ∈ row, v ≠ .text nullMark) (h : EmittedAs names row result) :
    names.map result.cell = row := by
  obtain ⟨more, hmore, hresult⟩ := h
  refine List.ext_getElem (by simp [hlength]) fun k hk hk' => ?_
  rw [List.length_map] at hk
  rw [List.getElem_map]
  refine cell_marked (hrow _ (List.getElem_mem hk')) (ResultMap.lookup_eq_some ?_ fun w hw => ?_)
  · refine hresult.mem_iff.2 (List.mem_append_left _ ?_)
    rw [List.mem_iff_getElem]
    exact ⟨k, by simp only [List.length_zip, List.length_map]; omega, by simp⟩
  · rcases List.mem_append.1 (hresult.mem_iff.1 hw) with hw | hw
    · obtain ⟨j, hj, hentry⟩ := List.mem_iff_getElem.1 hw
      rw [List.getElem_zip, Prod.mk.injEq, hnames.getElem_inj_iff] at hentry
      obtain ⟨rfl, rfl⟩ := hentry
      simp
    · exact absurd (List.getElem_mem hk) (hmore _ hw)

/-- Rows are read back from their maps. -/
lemma rows_emittedAs {columns : List ResultColumn} (hnames : (columns.map (·.name)).Nodup)
    {table : List (List Value)} {results : List ResultMap}
    (hlength : ∀ row ∈ table, row.length = columns.length)
    (hrow : ∀ row ∈ table, ∀ v ∈ row, v ≠ .text nullMark)
    (h : List.Forall₂ (EmittedAs (columns.map (·.name))) table results) :
    rows columns results = table := by
  induction h with
  | nil => rfl
  | cons hfirst _ ih =>
    have hcells := cell_emittedAs hnames (by simpa using hlength _ List.mem_cons_self)
      (hrow _ List.mem_cons_self) hfirst
    rw [List.map_map] at hcells
    exact congrArg₂ List.cons hcells
      (ih (fun row hr => hlength row (List.mem_cons_of_mem _ hr))
        fun row hr => hrow row (List.mem_cons_of_mem _ hr))

/-! ### The projection -/

/-- The steps that project. -/
def projections (v : Steps) : Steps :=
  v.filter (·.name = "project")

lemma projections_append (v w : Steps) :
    projections (v ++ w) = projections v ++ projections w :=
  List.filter_append ..

lemma projections_eq_nil {v : Steps} : projections v = [] ↔ "project" ∉ v.map (·.name) := by
  simp [projections, List.filter_eq_nil_iff]

variable {v : Steps}

lemma Selects.projections (h : Selects v) : projections v = [] := by
  rw [projections_eq_nil, List.mem_map]
  rintro ⟨s, hs, hname⟩
  have := h.isFilter s hs
  simp [Step.isFilter, hname] at this

lemma SelectsIf.projections {given : Bool} (h : SelectsIf given v) : projections v = [] := by
  cases given with
  | true => exact Selects.projections h
  | false =>
    rw [show v = [] from h]
    rfl

lemma Hop.project_notMem_names (h : Hop) : "project" ∉ h.names := by
  obtain ⟨_ | _, _ | _⟩ := h <;> decide

lemma LeadsOver.projections {joins : Nat} (h : LeadsOver joins (v.map (·.name))) :
    projections v = [] := by
  obtain ⟨start, hops, hstart, -, hnames⟩ := h
  rw [projections_eq_nil, hnames]
  simp only [List.mem_cons, List.mem_flatMap, not_or, not_exists, not_and]
  refine ⟨?_, by decide, by decide, fun hop _ => hop.project_notMem_names⟩
  rcases hstart with rfl | ⟨rfl, -⟩ <;> decide

lemma GroupsRows.projections {several keyed : Bool} (h : GroupsRows several keyed v) :
    projections v = [] := by
  obtain ⟨gathering, grouping, rfl, hgathering, hgrouping⟩ := h
  rw [projections_append, List.append_eq_nil_iff]
  constructor
  · rw [projections_eq_nil, hgathering]
    cases several <;> decide
  · cases keyed with
    | true =>
      obtain ⟨names, keys, -, rfl⟩ := hgrouping
      rfl
    | false =>
      rw [show grouping = [.fold] from hgrouping]
      rfl

lemma Orders.projections {count : Nat} (h : Orders count v) : projections v = [] := by
  obtain ⟨values, -, -, rfl⟩ := h
  simp [projections_eq_nil, Step.order, Step.byOrdered, Step.of]

lemma Limits.projections {given : List Value} (h : Limits given v) : projections v = [] := by
  cases h <;> rfl

lemma Projects.projections {names : List String} (h : Projects names v) :
    projections v = [.project names] := by
  obtain ⟨values, -, -, rfl⟩ := h
  have : projections (values.map .by_) = [] := by simp [projections_eq_nil, Step.by_, Step.of]
  exact congrArg _ this

/-- Nothing else in a query projects what the traversal stands at. -/
lemma Clauses.InOrder.projections {x : Clauses} {q : Select} {maxRows : Option Int}
    (h : x.InOrder q maxRows) :
    projections (x.steps q maxRows) = [.project (x.items.map (·.name))] := by
  obtain ⟨n, -, hsource, hgrouping⟩ := h.source
  have hgroups : GraphSelect.projections x.grouping = [] := by
    split at hgrouping
    · exact hgrouping.projections
    · rw [hgrouping]
      rfl
  have hsorting : GraphSelect.projections x.sorting = [] := by
    have := h.sorting
    split at this
    · rw [this]
      rfl
    · exact this.projections
  unfold Clauses.steps
  simp only [projections_append, hsource.projections, h.filter.projections, hgroups,
    h.having.projections, hsorting, List.nil_append]
  split
  · simp only [projections_append, h.projection.projections, h.limit.projections]
    rfl
  · simp only [projections_append, h.projection.projections, h.limit.projections]
    rfl

/-- **The columns of a result are read back.** Every select item has a column, under the name it
asks for unless a column before it has that, and no two columns have one name. They are what the
traversal projects, so the rows are those that its maps were made of. -/
theorem columns_readBack {c : Catalog} {source : Option String} {maxRows : Option Int}
    {q : Select} {p : Plan} (h : plan c source maxRows q = .ok p) :
    p.columns.length = q.items.length ∧ (p.columns.map (·.name)).Nodup ∧
      p.traversal.steps.filter (·.name = "project") = [Step.project (p.columns.map (·.name))] ∧
      KeepsNames q.items (p.columns.map (·.name)) ∧
      ∀ table results, (∀ row ∈ table, row.length = p.columns.length) →
        (∀ row ∈ table, ∀ v ∈ row, v ≠ .text nullMark) →
        List.Forall₂ (EmittedAs (p.columns.map (·.name))) table results →
        rows p.columns results = table := by
  obtain ⟨x, hx, hp, hcolumns⟩ := plan_eq_ok h
  have hnames : p.columns.map (·.name) = x.items.map (·.name) := by simp [hcolumns]
  have horder := hx.inOrder maxRows
  have hnodup := (nodup_itemsFrom hx.items).1
  rw [← hnames] at hnodup
  refine ⟨by simp [hcolumns, horder.items], hnodup, ?_, ?_, fun table results hlength hrow hemitted =>
    rows_emittedAs hnodup hlength hrow hemitted⟩
  · rw [hnames, hp]
    exact horder.projections
  · rw [hnames]
    exact keepsNames_itemsFrom hx.items

namespace People

/-- The second name is free, and the first number behind the third is used. -/
def repeatedNames : String := "SELECT name AS name0, name, name, age FROM person"

theorem names_readBack : ∃ q p, plan catalog (some "g") none q = .ok p ∧
    p.columns.map (·.name) = ["name0", "name", "name1", "age"] ∧
    rows p.columns
        [[("id", .int 7), ("age", .text nullMark), ("name1", .text "c"), ("name", .text "b"),
          ("name0", .text "a")]] =
      [[.text "a", .text "b", .text "c", .null]] := by
  obtain ⟨p, hp⟩ := Converter.exists_of_isOk
    (show ((⟨catalog, some "g", none⟩ : Converter).convert repeatedNames).isOk by decide +kernel)
  have hnames : p.columns.map (·.name) = ["name0", "name", "name1", "age"] := by
    have hcheck : (match (⟨catalog, some "g", none⟩ : Converter).convert repeatedNames with
      | .ok p => p.columns.map (·.name)
      | .error _ => []) = ["name0", "name", "name1", "age"] := by decide +kernel
    simpa only [hp] using hcheck
  obtain ⟨-, q, -, -, hplan⟩ := Converter.convert_eq_ok hp
  obtain ⟨-, -, -, -, hrows⟩ := columns_readBack hplan
  refine ⟨q, p, hplan, hnames, hrows _ _ ?_ ?_ (.cons ⟨[("id", .int 7)], ?_, ?_⟩ .nil)⟩
  · have := congrArg List.length hnames
    simpa using this.symm
  · simp [nullMark]
  · simp [hnames]
  · rw [hnames]
    exact List.reverse_perm ([("name0", .text "a"), ("name", .text "b"), ("name1", .text "c"),
      ("age", .text nullMark), ("id", .int 7)] : ResultMap)

end People

end GraphSelect
