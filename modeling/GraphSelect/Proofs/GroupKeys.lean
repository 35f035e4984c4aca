import GraphSelect.Proofs.Resolved
import GraphSelect.Proofs.WellScoped
import Mathlib.Data.Finset.Card
import Mathlib.Data.List.Dedup

/-!
The keys of groups of columns.

A key is known by a text, which is the name of a table, a dot, and a property. Of columns with one
text only the first makes a key. So no column is lost as long as different columns have different
texts, and they have unless a dot in a name can be taken for the one between a table and a property:
then the name of one table begins with that of another and a dot, and the rest of it begins the
property of the other.
-/

namespace GraphSelect

/-! ### The first members of a list with an image -/

section
variable {α β : Type}

lemma eraseDupsBy_induction (r : α → α → Bool) {P : List α → Prop} (nil : P [])
    (cons : ∀ a as, P (as.filter fun b => r b a = false) → P (a :: as)) : ∀ l, P l
  | [] => nil
  | a :: as => cons a as (eraseDupsBy_induction r nil cons _)
termination_by l => l.length
decreasing_by exact Nat.lt_succ_of_le (List.length_filter_le _ _)

variable [DecidableEq β] (f : α → β)

lemma map_eraseDupsBy (l : List α) :
    (l.eraseDupsBy fun a b => f a == f b).map f = (l.map f).eraseDups := by
  induction l using eraseDupsBy_induction fun a b => f a == f b with
  | nil => simp
  | cons a as ih =>
    rw [List.eraseDupsBy_cons, List.map_cons, ih, List.map_cons, List.eraseDups_cons,
      List.filter_map]
    simp [Function.comp_def, beq_eq_decide]

lemma eraseDupsBy_congr {r r' : α → α → Bool} {l : List α}
    (h : ∀ a ∈ l, ∀ b ∈ l, r a b = r' a b) : l.eraseDupsBy r = l.eraseDupsBy r' := by
  induction l using eraseDupsBy_induction r with
  | nil => rfl
  | cons a as ih =>
    have hfilter : as.filter (fun b => r b a = false) = as.filter fun b => r' b a = false :=
      List.filter_congr fun b hb => by rw [h b (by simp [hb]) a (by simp)]
    rw [List.eraseDupsBy_cons, List.eraseDupsBy_cons, ← hfilter, ih]
    intro b hb b' hb'
    exact h b (by simp_all) b' (by simp_all)

lemma nodup_eraseDups [DecidableEq α] (l : List α) : l.eraseDups.Nodup := by
  induction l using eraseDupsBy_induction fun a b : α => decide (a = b) with
  | nil => exact List.nodup_nil
  | cons a as ih =>
    rw [List.eraseDups_cons, List.nodup_cons]
    exact ⟨by simp, by simpa [beq_eq_decide] using ih⟩

lemma length_eraseDups [DecidableEq α] (l : List α) : l.eraseDups.length = l.toFinset.card := by
  rw [← List.toFinset_card_of_nodup (nodup_eraseDups l)]
  congr 1
  ext a
  simp

lemma length_eraseDupsBy [DecidableEq α] (l : List α) :
    (l.eraseDupsBy fun a b => f a == f b).length = (l.toFinset.image f).card := by
  have himage : (l.map f).toFinset = l.toFinset.image f := by
    ext
    simp
  rw [← List.length_map f, map_eraseDupsBy, length_eraseDups, himage]

/-- No member is lost where different ones have different images. -/
lemma eraseDupsBy_eq_eraseDups [DecidableEq α] {l : List α}
    (h : ∀ a ∈ l, ∀ b ∈ l, f a = f b → a = b) :
    (l.eraseDupsBy fun a b => f a == f b) = l.eraseDups :=
  eraseDupsBy_congr fun a ha b hb => by
    rw [Bool.eq_iff_iff, beq_iff_eq, beq_iff_eq]
    exact ⟨h a ha b hb, congrArg f⟩

/-- A member is lost where two that differ have one image. -/
lemma length_eraseDupsBy_lt [DecidableEq α] {l : List α} {a b : α} (ha : a ∈ l) (hb : b ∈ l)
    (hne : a ≠ b) (h : f a = f b) :
    (l.eraseDupsBy fun a b => f a == f b).length < l.eraseDups.length := by
  rw [length_eraseDupsBy, length_eraseDups]
  refine lt_of_le_of_ne Finset.card_image_le fun hcard => hne ?_
  exact Finset.card_image_iff.1 hcard (by simpa using ha) (by simpa using hb) h

end

/-! ### Columns and the texts of their keys -/

/-- A column that rows are grouped by: the name that its table is bound to, and its property. -/
structure KeyColumn where
  label : String
  property : String
  deriving DecidableEq

/-- The name of the key that a column makes. -/
def KeyColumn.text (k : KeyColumn) : String := Scope.groupKey k.label k.property

/-- A column whose property begins with what the label of the other has behind its own. -/
def KeyColumn.RunsInto (k k' : KeyColumn) : Prop :=
  ∃ m, k.property = m ++ "." ++ k'.property ∧ k'.label = k.label ++ "." ++ m

lemma KeyColumn.RunsInto.length_lt {k k' : KeyColumn} (h : k.RunsInto k') :
    k.label.length < k'.label.length := by
  obtain ⟨m, -, hlabel⟩ := h
  have hlength := congrArg String.length hlabel
  rw [String.length_append, String.length_append, show ".".length = 1 from rfl] at hlength
  omega

lemma KeyColumn.runsInto_iff {l l' p p' : String} :
    (∃ cs, l'.toList = l.toList ++ cs ∧ '.' :: p.toList = cs ++ '.' :: p'.toList) ↔
      (l = l' ∧ p = p') ∨ RunsInto ⟨l, p⟩ ⟨l', p'⟩ := by
  simp only [RunsInto, ← String.toList_inj, String.toList_append]
  constructor
  · rintro ⟨_ | ⟨c, cs⟩, hl, hp⟩
    · exact .inl ⟨by simpa using hl.symm, by simpa using hp⟩
    · obtain ⟨rfl, hp⟩ := List.cons.inj hp
      exact .inr ⟨String.ofList cs, by simpa using hp, by simpa using hl⟩
  · rintro (⟨hl, hp⟩ | ⟨m, hp, hl⟩)
    · exact ⟨[], by simp [hl], by simp [hp]⟩
    · exact ⟨'.' :: m.toList, by simpa using hl, by simpa using hp⟩

/-- Two columns have keys of one name only if a dot in the property of one of them is taken for the
dot behind the label of the other. -/
lemma KeyColumn.text_eq_iff {k k' : KeyColumn} :
    k.text = k'.text ↔ k = k' ∨ k.RunsInto k' ∨ k'.RunsInto k := by
  obtain ⟨l, p⟩ := k
  obtain ⟨l', p'⟩ := k'
  have hlist : text ⟨l, p⟩ = text ⟨l', p'⟩ ↔
      l.toList ++ '.' :: p.toList = l'.toList ++ '.' :: p'.toList := by
    rw [← String.toList_inj]
    simp [text, Scope.groupKey]
  rw [hlist, List.append_eq_append_iff, runsInto_iff, runsInto_iff, mk.injEq, eq_comm (a := l'),
    eq_comm (a := p')]
  tauto

namespace Scope

variable {s : Scope} {is : List Identifier} {i : Identifier} {k : KeyColumn}
  {columns : List KeyColumn}

/-- The column that an identifier denotes. -/
def keyColumn (s : Scope) (i : Identifier) : Outcome KeyColumn :=
  (s.owner i).map fun (b, c) => ⟨b.name, c.property⟩

/-- The key of a column: its name, and the steps that read the property of a row. -/
def keyOf (s : Scope) (k : KeyColumn) : String × Steps :=
  (k.text, s.propertySteps k.label k.property)

/-- An entry that is a column makes its key, unless there is a key of that name. -/
lemma groupKeysFrom_cons (hs : s.isRowContext = true) (hi : s.keyColumn i = .ok k)
    (keys : List (String × Steps)) (ns : List Node) :
    groupKeysFrom s keys (.identifier i :: ns) =
      if (keys.lookup k.text).isSome then groupKeysFrom s keys ns
      else groupKeysFrom s (keys ++ [s.keyOf k]) ns := by
  obtain ⟨⟨b, c⟩, howner, rfl⟩ := Outcome.map_eq_ok.1 hi
  have hname : keyName s (.identifier i) (.column i) = .ok (groupKey b.name c.property) := by
    simp [keyName, howner]
  have hvalue : (Operand.column i).value s = .ok (s.propertySteps b.name c.property) := by
    change s.columnSteps i = _
    simp [columnSteps, howner, hs]
  change (do
    let name ← keyName s (.identifier i) (.column i)
    if (keys.lookup name).isSome then groupKeysFrom s keys ns
    else do
      let value ← (Operand.column i).value s
      groupKeysFrom s (keys ++ [(name, value)]) ns) = _
  rw [hname, hvalue]
  rfl

/-- Of columns that make keys of one name, the first makes the key. -/
lemma groupKeysFrom_columns_eq (hs : s.isRowContext = true)
    (h : List.Forall₂ (fun i k => s.keyColumn i = .ok k) is columns)
    (before : List KeyColumn) :
    groupKeysFrom s (before.map s.keyOf) (is.map .identifier) =
      .ok ((before ++ (columns.filter fun k => !before.any (k.text == ·.text)).eraseDupsBy
        fun k k' => k.text == k'.text).map s.keyOf) := by
  induction h generalizing before with
  | nil => simp [groupKeysFrom]
  | @cons i k is columns hi _ ih =>
    have hlookup : ((before.map s.keyOf).lookup k.text).isSome = before.any (k.text == ·.text) := by
      rw [Bool.eq_iff_iff, List.lookup_isSome_iff]
      simp [keyOf]
    rw [List.map_cons, groupKeysFrom_cons hs hi, hlookup]
    by_cases hk : before.any (k.text == ·.text) = true
    · rw [if_pos hk, ih before, List.filter_cons_of_neg (by simpa using hk)]
    · have hnew := ih (before ++ [k])
      rw [List.map_append, List.map_cons, List.map_nil] at hnew
      rw [if_neg hk, hnew, List.filter_cons_of_pos (by simpa using hk), List.eraseDupsBy_cons,
        List.filter_filter, List.append_assoc, List.singleton_append]
      congr 5
      refine List.filter_congr fun k' _ => ?_
      simp [Bool.and_comm, beq_eq_decide]

end Scope

/-! ### Grouping by columns -/

/-- The columns that make keys: of those whose keys have one name, the first. -/
def keyColumns (columns : List KeyColumn) : List KeyColumn :=
  columns.eraseDupsBy fun k k' => k.text == k'.text

/-- No column is lost where no label runs into a property. -/
lemma keyColumns_eq_eraseDups {columns : List KeyColumn}
    (h : ∀ k ∈ columns, ∀ k' ∈ columns, ¬ k.RunsInto k') :
    keyColumns columns = columns.eraseDups := by
  refine eraseDupsBy_eq_eraseDups KeyColumn.text fun k hk k' hk' htext => ?_
  rcases KeyColumn.text_eq_iff.1 htext with heq | hruns | hruns
  · exact heq
  · exact absurd hruns (h k hk k' hk')
  · exact absurd hruns (h k' hk' k hk)

lemma length_keyColumns_lt {columns : List KeyColumn} {k k' : KeyColumn} (hk : k ∈ columns)
    (hk' : k' ∈ columns) (h : k.RunsInto k') :
    (keyColumns columns).length < columns.eraseDups.length := by
  refine length_eraseDupsBy_lt KeyColumn.text hk hk' ?_ (KeyColumn.text_eq_iff.2 (.inr (.inl h)))
  rintro rfl
  exact Nat.lt_irrefl _ h.length_lt

/-- The steps that group rows by columns of theirs. -/
def columnGrouping (s : Scope) (columns : List KeyColumn) : Steps :=
  (if s.isSingleTable then [] else [Step.select s.labels]) ++
    [.group,
      .by_ (.project (columns.map (·.text)) ::
        columns.map fun k => .by_ (orMark (s.propertySteps k.label k.property))),
      .by_ [.fold], .unfold]

section

variable {c : Catalog} {q r : Select} {n : Node} {s : Scope} {v : Steps} {is : List Identifier}
  {columns : List KeyColumn}

lemma grouped_columns (hs : s.isRowContext = true) (hne : is ≠ [])
    (h : List.Forall₂ (fun i k => s.keyColumn i = .ok k) is columns) :
    grouped s (is.map .identifier) = .ok (s.startGrouping ((keyColumns columns).map (·.text)),
      columnGrouping s (keyColumns columns)) := by
  have hkeys : groupKeysFrom s [] (is.map .identifier) =
      .ok ((keyColumns columns).map s.keyOf) := by
    simpa [keyColumns] using Scope.groupKeysFrom_columns_eq hs h []
  have hcolumns : keyColumns columns ≠ [] := by
    obtain _ | ⟨_, _⟩ := h
    · exact absurd rfl hne
    · simp [keyColumns, List.eraseDupsBy_cons]
  rw [grouped, hkeys]
  simp [groupingSteps, columnGrouping, keySteps, Scope.keyOf, Function.comp_def, hcolumns]

/-- The columns of a resolved query are found. -/
lemma exists_keyColumns (hr : q.resolve c = .ok r) (hn : r.source = some n)
    (hs : sourceSteps (.initial c) n = .ok (s, v)) (hgroup : r.groupBy = is.map .identifier)
    (hstar : ∀ i ∈ is, i.isStar = false) :
    ∃ columns, List.Forall₂ (fun i k => s.keyColumn i = .ok k) is columns := by
  obtain ⟨ts, hts⟩ := resolveSelect_eq_ok hr
  obtain ⟨m, hm, hsource⟩ := hts.exists_source hn
  obtain ⟨rfl, -, hnodup, -⟩ := sources_agree hsource ⟨v, hs⟩
  have hfound : ∀ i ∈ is, ∃ k, s.keyColumn i = .ok k := by
    intro i hi
    obtain ⟨m, -, hm⟩ := exists_left_of_forall₂ (forall₂_resolveEach hts.groupBy)
      (.identifier i) (by simp [hgroup, hi])
    obtain ⟨j, -, hj⟩ := resolve_eq_identifier hm
    obtain ⟨b, col, -, -, howner⟩ := Scope.sameColumn_of_resolves hnodup hj (hstar i hi)
    exact ⟨⟨b.name, col.property⟩, by rw [Scope.keyColumn, howner, Outcome.map_ok]⟩
  obtain ⟨columns, hcolumns⟩ := Outcome.exists_mapM hfound
  exact ⟨columns, Outcome.forall₂_of_mapM hcolumns⟩

/-- The steps of the grouping stand in every plan. -/
lemma infix_of_grouped {s' : Scope} {w : Steps} {source : Option String} {maxRows : Option Int}
    {p : Plan} (hn : r.source = some n) (hs : sourceSteps (.initial c) n = .ok (s, v))
    (hgroup : r.groupBy ≠ []) (hgrouped : grouped s r.groupBy = .ok (s', w))
    (hp : plan c source maxRows r = .ok p) : w <:+: p.traversal.steps := by
  obtain ⟨x, hx, hp, -⟩ := plan_eq_ok hp
  obtain ⟨n', hn', hs'⟩ := hx.source
  obtain rfl : n = n' := Option.some.inj (hn.symm.trans hn')
  obtain ⟨hrow, -⟩ := Prod.mk.inj (Except.ok.inj (hs.symm.trans hs'))
  have hneeds : r.needsGrouping = true := by simp [Select.needsGrouping, hgroup]
  have hgrouping := hx.grouping
  rw [if_pos hneeds, ← hrow, hgrouped] at hgrouping
  obtain ⟨-, rfl⟩ := Prod.mk.inj (Except.ok.inj hgrouping)
  obtain ⟨rest, hrest⟩ : ∃ rest,
      x.steps r maxRows = x.source ++ x.filter ++ x.grouping ++ rest := by
    simp only [Clauses.steps, List.append_assoc]
    exact ⟨_, rfl⟩
  rw [hp, hrest]
  exact List.infix_append _ _ _

/-- **Rows are grouped by every column, unless two have keys of one name.** A resolved query that
groups by columns has for each of them the name of its table and its property, and projects them as
the keys of its groups, in the order in which they come first, each read from its own table. None is
lost and none comes twice, unless the label of one runs into the property of another. Then the
second of the two is lost. -/
theorem grouped_by_columns (hr : q.resolve c = .ok r) (hn : r.source = some n)
    (hs : sourceSteps (.initial c) n = .ok (s, v)) (hgroup : r.groupBy = is.map .identifier)
    (hne : is ≠ []) (hstar : ∀ i ∈ is, i.isStar = false) :
    ∃ columns, List.Forall₂ (fun i k => s.keyColumn i = .ok k) is columns ∧
      grouped s r.groupBy = .ok (s.startGrouping ((keyColumns columns).map (·.text)),
        columnGrouping s (keyColumns columns)) ∧
      (∀ source maxRows p, plan c source maxRows r = .ok p →
        columnGrouping s (keyColumns columns) <:+: p.traversal.steps) ∧
      ((∀ k ∈ columns, ∀ k' ∈ columns, ¬ k.RunsInto k') → keyColumns columns = columns.eraseDups) ∧
      ((∃ k ∈ columns, ∃ k' ∈ columns, k.RunsInto k') →
        (keyColumns columns).length < columns.eraseDups.length) := by
  obtain ⟨columns, hcolumns⟩ := exists_keyColumns hr hn hs hgroup hstar
  have hgrouped := grouped_columns (isRowContext_sourceSteps hs) hne hcolumns
  rw [← hgroup] at hgrouped
  exact ⟨columns, hcolumns, hgrouped,
    fun _ _ _ hp => infix_of_grouped hn hs (by simp [hgroup, hne]) hgrouped hp,
    keyColumns_eq_eraseDups, fun ⟨k, hk, k', hk', hruns⟩ => length_keyColumns_lt hk hk' hruns⟩

end

/-- Whether a query is grouped by just these two columns, and by keys of these names. -/
def groupsByTwo (c : Catalog) (k k' : KeyColumn) (names : List String) (r : Select) : Bool :=
  match r.source, r.groupBy with
  | some n, [.identifier i, .identifier j] =>
    match sourceSteps (.initial c) n with
    | .ok (s, _) => !i.isStar && !j.isStar && (s.keyColumn i).toOption = some k &&
        (s.keyColumn j).toOption = some k' &&
        (grouped s r.groupBy).toOption.map (·.1.groupKeys) = some names
    | .error _ => false
  | _, _ => false

/-- What a query with two keys is made of. -/
structure GroupsByTwo (c : Catalog) (k k' : KeyColumn) (names : List String) (r : Select) (n : Node)
    (s : Scope) (v : Steps) (i j : Identifier) : Prop where
  source : r.source = some n
  steps : sourceSteps (.initial c) n = .ok (s, v)
  groupBy : r.groupBy = [i, j].map .identifier
  noStar : ∀ l ∈ [i, j], l.isStar = false
  first : s.keyColumn i = .ok k
  second : s.keyColumn j = .ok k'
  names : ∃ s' w, grouped s r.groupBy = .ok (s', w) ∧ s'.groupKeys = names

lemma exists_of_groupsByTwo {c : Catalog} {k k' : KeyColumn} {names : List String} {r : Select}
    (h : groupsByTwo c k k' names r = true) :
    ∃ n s v i j, GroupsByTwo c k k' names r n s v i j := by
  unfold groupsByTwo at h
  split at h
  · next n i j hn hgroup =>
    split at h
    · next s v hs =>
      simp only [Bool.and_eq_true, decide_eq_true_eq, Bool.not_eq_eq_eq_not, Bool.not_true,
        Option.map_eq_some_iff] at h
      obtain ⟨⟨⟨⟨hi, hj⟩, hk⟩, hk'⟩, ⟨s', w⟩, hgrouped, hnames⟩ := h
      exact ⟨n, s, v, i, j, hn, hs, hgroup, by simp [hi, hj], Outcome.eq_ok_of_toOption hk,
        Outcome.eq_ok_of_toOption hk', s', w, Outcome.eq_ok_of_toOption hgrouped, hnames⟩
    · cases h
  · cases h

/-- The ages of two people. -/
def People.ages : String :=
  "SELECT COUNT(*) AS n FROM person p JOIN person q ON p.name = q.name GROUP BY q.age, p.age"

theorem groups_by_ages : ∃ q r n s v i j, Parser.parse People.ages = .ok q ∧
    q.resolve People.catalog = .ok r ∧
    GroupsByTwo People.catalog ⟨"q", "age"⟩ ⟨"p", "age"⟩ ["q.age", "p.age"] r n s v i j ∧
    ∃ s', grouped s r.groupBy =
      .ok (s', columnGrouping s [⟨"q", "age"⟩, ⟨"p", "age"⟩]) := by
  obtain ⟨q, r, hq, hr, hcheck⟩ := exists_of_resolvesWith
    (show resolvesWith People.ages People.catalog (fun _ r =>
      groupsByTwo People.catalog ⟨"q", "age"⟩ ⟨"p", "age"⟩ ["q.age", "p.age"] r) by decide +kernel)
  obtain ⟨n, s, v, i, j, h⟩ := exists_of_groupsByTwo hcheck
  obtain ⟨columns, hcolumns, hgrouped, -, hkept, -⟩ :=
    grouped_by_columns hr h.source h.steps h.groupBy (by simp) h.noStar
  obtain _ | ⟨hi, _ | ⟨hj, _ | _⟩⟩ := hcolumns
  cases h.first.symm.trans hi
  cases h.second.symm.trans hj
  have hclear := hkept fun k hk k' hk' hruns => by
    have := hruns.length_lt
    simp only [List.mem_cons, List.not_mem_nil, or_false] at hk hk'
    rcases hk with rfl | rfl <;> rcases hk' with rfl | rfl <;> exact absurd this (by decide)
  rw [hclear] at hgrouped
  exact ⟨q, r, n, s, v, i, j, hq, hr, h, _, hgrouped⟩

/-- Two tables, of which one has a property with a dot in its name. -/
def Dotted.catalog : Catalog where
  tables :=
    [⟨"t", "t", [⟨"k", "k", .integer⟩, ⟨"x", "b.c", .varchar⟩], .vertex⟩,
     ⟨"u", "u", [⟨"k", "k", .integer⟩, ⟨"y", "c", .varchar⟩], .vertex⟩]
  edges := [⟨"e", "t", "u", none, none⟩]

/-- The property `b.c` of `a`, and the property `c` of `a.b`. -/
def Dotted.pairs : String :=
  "SELECT COUNT(*) AS n FROM t AS a JOIN u AS \"a.b\" ON a.k = \"a.b\".k GROUP BY a.x, \"a.b\".y"

/-- Rows are grouped by the first column only. -/
theorem Dotted.groups_by_first : ∃ q r n s v i j, Parser.parse pairs = .ok q ∧
    q.resolve catalog = .ok r ∧
    GroupsByTwo catalog ⟨"a", "b.c"⟩ ⟨"a.b", "c"⟩ ["a.b.c"] r n s v i j := by
  obtain ⟨q, r, hq, hr, hcheck⟩ := exists_of_resolvesWith (show resolvesWith pairs catalog
    (fun _ r => groupsByTwo catalog ⟨"a", "b.c"⟩ ⟨"a.b", "c"⟩ ["a.b.c"] r) by decide +kernel)
  obtain ⟨n, s, v, i, j, h⟩ := exists_of_groupsByTwo hcheck
  exact ⟨q, r, n, s, v, i, j, hq, hr, h⟩

end GraphSelect
