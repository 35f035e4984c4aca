import GraphSelect.Proofs.Reparsing
import GraphSelect.Proofs.Supported

/-!
Character constants on their way from the text of a query to its traversal.

A constant is printed between quotes, with every quote in it doubled, and so a reader can tell where
it ends whatever characters it holds. It is read as the constant it is, also next to others, and
where a column is compared with it, the traversal tests for the very text that it holds.
-/

namespace GraphSelect

/-! ### Texts of queries -/

/-- A query of plain words without loose negations is parsed from its text. -/
theorem Parser.parse_of_sql? {q : Select} {text : String}
    (h : (Node.select q).IsParsed True .query)
    (htight : ∀ m : Node, m.StandsIn (.select q) → m.hasLooseNot = false)
    (htext : (Node.select q).sql? = some text) : parse text = .ok q := by
  obtain ⟨w, hw, hspells⟩ := h.isWritten.prints h.hasPlainWords
  obtain rfl := Option.some.inj (hw.symm.trans htext)
  obtain ⟨_, ⟨⟩, hreads⟩ := reads_of_isParsed h htight
  obtain ⟨s, c, hrun, hrests⟩ := hreads []
  have hselect : run .initial (Node.select q).tokens = .ok s := by
    rw [Node.tokens_select]
    exact (run_step (by decide) rfl).trans hrun
  have hfinish : s.finish? = some q := by simp [State.finish?, hrests.settled]
  exact read_of_spells hspells hselect hfinish .start .start

lemma Literal.isParsed_ofChars (v : String) : (ofChars v).IsParsed True :=
  ⟨.chars v, rfl, fun _ => rfl⟩

/-! ### Selected constants -/

/-- The query for some constants, from no table. -/
def Select.ofLiterals (ls : List Literal) : Select :=
  { Select.empty with items := ls.map .literal }

lemma Select.sql?_ofLiterals (ls : List Literal) :
    (Node.select (ofLiterals ls)).sql? =
      some ("SELECT " ++ ", ".intercalate (ls.map (·.value.sql))) := by
  have hitems : (Node.sqlEach (ls.map .literal)).mapM id = some (ls.map (·.value.sql)) := by
    rw [Node.sqlEach_eq_map]
    induction ls with
    | nil => rfl
    | cons l ls ih => simp_all [Node.sql?]
  simp [ofLiterals, Select.empty, Node.sql?, Node.selectText?, hitems, Node.sqlOption, Node.sqlEach,
    Node.sqlKeys, Node.clause?, Node.clauses?, Node.commas]

/-- The constants of a query without tables are read from its text. -/
lemma Parser.parse_ofLiterals {ls : List Literal} (hls : ∀ l ∈ ls, l.IsParsed True)
    (hne : ls ≠ []) :
    parse ("SELECT " ++ ", ".intercalate (ls.map (·.value.sql))) = .ok (.ofLiterals ls) := by
  refine parse_of_sql? ?_ ?_ (Select.sql?_ofLiterals ls)
  · refine .query (by simpa [Select.ofLiterals] using hne) (List.forall_mem_map.2 fun l hl => ?_)
      nofun nofun nofun nofun nofun nofun nofun
    exact .item (.literal (hls l hl))
  · refine Node.forall_standsIn rfl fun m hm => ?_
    obtain ⟨l, -, rfl⟩ : ∃ l ∈ ls, Node.literal l = m := by
      simpa [Select.ofLiterals, Select.empty, Node.children] using hm
    exact Node.forall_standsIn_leaf rfl rfl

/-! ### Compared columns -/

/-- The condition that a column is equal to a text. -/
def Node.equalsText (i : Identifier) (v : String) : Node :=
  .apply (.comparison .equal) [.identifier i, .literal (.ofChars v)]

/-- The traversal goes through the rows of one table, bound to a name, and first tests a property of
theirs for a text. -/
def Plan.Tests (p : Plan) (t : Table) (name property v : String) : Prop :=
  [if t.isVertex then Step.vertices else .edges, .hasLabel t.label, .label name,
    .hasValue property .equal (.text v)] <+: p.traversal.steps

/-- A column of one table is resolved to a column that is found there again. -/
lemma Tables.column?_identifier {name : String} {table : Table} {i i' : Identifier} {col : Column}
    (h : identifier [(name, table)] i = .ok i') (hstar : i'.isStar = false)
    (hcol : table.column? i'.simple = some col) : table.column? i.simple = some col := by
  rcases identifier_cases h with ⟨hi, rfl⟩ | ⟨_, found, howner, rfl⟩
  · exact absurd (hstar.symm.trans hi) Bool.false_ne_true
  · obtain ⟨_, ht, hfound⟩ := owner_cases howner
    obtain ⟨rfl, rfl⟩ := Prod.mk.inj (List.mem_singleton.1 ht)
    exact hfound.trans ((Table.column?_name hfound).symm.trans hcol)

section

variable {c : Catalog} {name column : String} {table : Table} {i : Identifier} {v : String}

/-- A row of one table is compared by a test of the property behind the column. -/
lemma exists_test {n' : Node} {steps : Steps}
    (hn : resolve c [(name, table)] (.equalsText i v) = .ok n')
    (h : Filters ⟨c, [⟨name, table⟩], none, false⟩ (some n') steps) :
    ∃ col, table.column? i.simple = some col ∧
      steps = [.hasValue col.property .equal (.text v)] := by
  obtain ⟨type, _, rfl, hns⟩ := resolve_call_each (by simp) (by simp) hn
  obtain _ | ⟨hi, _ | ⟨hv, _ | _⟩⟩ := hns
  cases hv
  obtain ⟨i', hi', rfl⟩ := Outcome.map_eq_ok.1 hi
  cases h with
  | @some _ o _ ho hv =>
    rw [Operand.ofNode_call] at ho
    obtain ⟨os, hos, ho⟩ := Outcome.bind_eq_ok.1 ho
    obtain ⟨text, -, ho⟩ := Outcome.bind_eq_ok.1 ho
    cases hos
    cases ho
    have hcolumn : Operand.columnFilter ⟨c, [⟨name, table⟩], none, false⟩ i'
        (.hasValue · .equal (.text v)) = .ok steps := hv
    obtain ⟨⟨b, col⟩, howner, rfl⟩ := Outcome.map_eq_ok.1 hcolumn
    obtain ⟨hstar, hcol, -⟩ := Scope.owner_cases howner
    obtain rfl := List.mem_singleton.1 (Scope.mem_of_owner howner)
    exact ⟨col, Tables.column?_identifier hi' hstar hcol, rfl⟩

/-- The rows of one table are where a traversal begins. -/
lemma sourceSteps_table {t : TableRef} (ht : c.table t.name = .ok table) :
    sourceSteps (.initial c) (.table t) = .ok (⟨c, [⟨t.binding, table⟩], none, false⟩,
      [if table.isVertex then .vertices else .edges, .hasLabel table.label, .label t.binding]) := by
  have ht' : (Scope.initial c).catalog.table t.name = .ok table := ht
  rw [sourceSteps, tableSteps, ht']
  rfl

/-- Whatever else a query of one table asks for, if it compares a column with a text, its plan first
tests for this text. -/
theorem tests_of_convert {x : Converter} {q : Select} {t : TableRef} {text : String} {p : Plan}
    (hparse : Parser.parse text = .ok q) (hsource : q.source = some (.table t))
    (hfilter : q.filter = some (.equalsText i v)) (h : x.convert text = .ok p) :
    ∃ table col, x.catalog.table t.name = .ok table ∧ table.column? i.simple = some col ∧
      p.Tests table t.binding col.property v := by
  obtain ⟨q₀, q', hq₀, hresolve, hplan⟩ := Converter.convert_eq_ok h
  obtain rfl := Except.ok.inj (hq₀.symm.trans hparse)
  obtain ⟨ts, hts⟩ := resolveSelect_eq_ok hresolve
  obtain ⟨clauses, hclauses, htraversal, -⟩ := plan_eq_ok hplan
  obtain ⟨n', hn', hsteps⟩ := hclauses.source
  obtain ⟨n, hn, hr⟩ := hts.exists_source hn'
  obtain rfl := Option.some.inj (hn.symm.trans hsource)
  obtain ⟨rfl, table, htable, hadd⟩ := resolveSource_table hr
  obtain ⟨-, rfl⟩ := Tables.add_eq_ok hadd
  obtain ⟨hrow, hfrom⟩ := Prod.mk.inj (Except.ok.inj ((sourceSteps_table htable).symm.trans hsteps))
  have hcondition := hts.filter
  rw [hfilter] at hcondition
  obtain ⟨m', hm', hmeq⟩ := Outcome.map_eq_ok.1 hcondition
  have hfilters := hclauses.filter
  rw [← hmeq, ← hrow] at hfilters
  obtain ⟨col, hcol, htest⟩ := exists_test hm' hfilters
  refine ⟨table, col, htable, hcol, ?_⟩
  rw [Plan.Tests, htraversal, Clauses.steps, ← hfrom, htest]
  simp only [List.append_assoc]
  exact ⟨_, rfl⟩

/-! ### A query for one column -/

/-- The query for a column of a table where it is equal to a text. -/
def Select.ofTest (name column v : String) : Select :=
  { Select.empty with
    items := [Parser.column [column]]
    source := some (.table ⟨name, none⟩)
    filter := some (.equalsText ⟨[column], none⟩ v) }

lemma Select.sql?_ofTest (name column v : String) :
    (Node.select (ofTest name column v)).sql? = some ("SELECT " ++ column ++ " FROM " ++ name ++
      " WHERE " ++ column ++ " = " ++ (Literal.ofChars v).value.sql) := by
  simp [ofTest, Select.empty, Node.sql?, Node.sqlEach, Node.sqlOption, Node.sqlKeys,
    Node.selectText?, Node.clause?, Node.clauses?, Node.commas, Node.equalsText, Node.apply,
    Node.callText?, Operator.form, Parser.column, Identifier.text, TableRef.text,
    TableRef.asName?, Node.bracket, Node.isBracketed, Operator.name, Comparison.symbol,
    String.append_assoc]
  simp [← String.toList_inj]

lemma Parser.parse_ofTest (hname : isPlainWord name.toList = true)
    (hcolumn : isPlainWord column.toList = true) (v : String) :
    parse ("SELECT " ++ column ++ " FROM " ++ name ++ " WHERE " ++ column ++ " = " ++
      (Literal.ofChars v).value.sql) = .ok (.ofTest name column v) := by
  have hread : (Parser.column [column]).IsParsed True .expression :=
    .column (.inl rfl) fun _ => List.forall_mem_singleton.2 hcolumn
  refine parse_of_sql? ?_ ?_ (Select.sql?_ofTest name column v)
  · refine .query (List.cons_ne_nil _ _) (List.forall_mem_singleton.2 (.item hread)) ?_ ?_ nofun
      nofun nofun nofun nofun
    · rintro _ ⟨⟩
      exact .table fun _ => ⟨hname, nofun⟩
    · rintro _ ⟨⟩
      exact .infixed rfl hread (.literal (Literal.isParsed_ofChars v))
  · refine Node.forall_standsIn rfl fun m hm => ?_
    have hleaf (m : Node) (hm : m.children = []) (hn : m.hasLooseNot = false) :
        ∀ l : Node, l.StandsIn m → l.hasLooseNot = false := Node.forall_standsIn_leaf hn hm
    obtain rfl | rfl | rfl : m = Parser.column [column] ∨ m = .table ⟨name, none⟩ ∨
        m = .equalsText ⟨[column], none⟩ v := by
      simpa [Select.ofTest, Select.empty, Node.children] using hm
    · exact hleaf _ rfl rfl
    · exact hleaf _ rfl rfl
    · exact Node.forall_standsIn rfl (List.forall_mem_cons.2 ⟨hleaf _ rfl rfl,
        List.forall_mem_singleton.2 (hleaf _ rfl rfl)⟩)

/-- A column that a word names is not named like a star. -/
lemma name_ne_star {col : Column} (hcolumn : isPlainWord column.toList = true)
    (hcol : table.column? column = some col) : col.name ≠ "*" := by
  have hlower : Text.lower col.name = Text.lower column := by
    simpa [sameName] using List.find?_some hcol
  obtain ⟨⟨d, ds, hword, hd, -⟩, -⟩ := isPlainWord_eq_true hcolumn
  have hhead : (Text.lowerFrom [] (d :: ds)).head? ≠ some '*' := by
    have hfirst : d ≠ 'Σ' ∧ Text.lowerChar d ≠ [] ∧ (Text.lowerChar d).head? ≠ some '*' :=
      forall_isNameRest (p := fun c => isNameStart c = true →
        c ≠ 'Σ' ∧ Text.lowerChar c ≠ [] ∧ (Text.lowerChar c).head? ≠ some '*') (by decide)
        (by decide) (isNameRest_of_isNameStart hd) hd
    rw [Text.lowerFrom, if_neg hfirst.1, List.head?_append_of_ne_nil _ hfirst.2.1]
    exact hfirst.2.2
  intro hstar
  rw [hstar, Text.lower, Text.lower, hword] at hlower
  exact hhead (by rw [← String.ofList_injective hlower]; rfl)

lemma Identifier.isStar_plain (h : isPlainWord column.toList = true) :
    isStar ⟨[column], none⟩ = false := by
  simp only [isStar, simple, List.getLastD_cons, List.getLastD_nil, decide_eq_false_iff_not]
  rintro rfl
  exact absurd h (by decide)

/-- The query resolves to one that is supported. -/
lemma exists_resolve_ofTest {col : Column} (hcolumn : isPlainWord column.toList = true)
    (htable : c.table name = .ok table) (hcol : table.column? column = some col) (v : String) :
    ∃ q, (Select.ofTest name column v).resolve c = .ok q ∧ q.IsSupported c := by
  have hstar := Identifier.isStar_plain hcolumn
  have hidentifier : Tables.identifier [(name, table)] ⟨[column], none⟩ =
      .ok ⟨[name, col.name], some col.type⟩ := by
    simp [Tables.identifier, hstar, Tables.owner, Tables.owners, hcol]
  have hsource : resolveTables c (some (.table ⟨name, none⟩)) =
      .ok ([(name, table)], some (.table ⟨name, none⟩)) := by
    simp [resolveTables, resolveSource, htable, Tables.add, TableRef.binding, TableRef.asName?]
  let found : Node := .identifier ⟨[name, col.name], some col.type⟩
  let test : Node :=
    .call ⟨.comparison .equal, false, some .boolean⟩ [found, .literal (.ofChars v)]
  have hfound : found.isSupported = true := by
    have hname : col.name ≠ "*" := name_ne_star hcolumn hcol
    simp [found, Node.isSupported, Node.parts, Node.isSupportedPart, Identifier.isStar,
      Identifier.simple, hname]
  have htest : test.isSupported = true := by
    rw [Node.isSupported] at hfound ⊢
    simpa [test, Node.parts, Node.partsEach, Node.isSupportedPart, Operator.takesTwo] using hfound
  refine ⟨{ Select.ofTest name column v with items := [found], filter := some test }, ?_, ?_⟩
  · rw [Select.resolve, resolveSelect_eq]
    simp [Select.ofTest, Select.empty, hsource, Parser.column, hstar, checkStars, resolveItems,
      hidentifier, resolveOption, resolve, Node.equalsText, Node.apply, resolveEach, namedItems,
      Node.asName?, resolveKeys]
    exact ⟨rfl, rfl⟩
  · exact {
      source := ⟨_, _, rfl, .table htable⟩
      items := List.forall_mem_singleton.2 hfound
      filter := by
        rintro _ ⟨⟩
        exact htest
      orderBy := by rintro _ ⟨⟩
      groupBy := rfl
      having := rfl
      offset := rfl }

end

/-- **Character constants keep their characters**: each of those selected is read as a constant with
its text, whatever stands in it, and a query of one table that compares a column with one tests for
this text. -/
theorem quoted_constants_survive (x : Converter) {vs : List String} (hvs : vs ≠ []) :
    (∃ ls : List Literal, Parser.parse ("SELECT " ++ ", ".intercalate
          (vs.map fun v => (Literal.ofChars v).value.sql)) =
        .ok { Select.empty with items := ls.map .literal } ∧
      (∀ l ∈ ls, l.type = .char) ∧ ls.map Literal.plain? = vs.map some) ∧
    ∀ v ∈ vs,
      (∀ {text : String} {q : Select} {t : TableRef} {i : Identifier} {p : Plan},
        Parser.parse text = .ok q → q.source = some (.table t) →
        q.filter = some (.equalsText i v) → x.convert text = .ok p →
        ∃ table col, x.catalog.table t.name = .ok table ∧ table.column? i.simple = some col ∧
          p.Tests table t.binding col.property v) ∧
      ∀ {name column : String} {table : Table} {col : Column},
        isPlainWord name.toList = true → isPlainWord column.toList = true →
        x.catalog.table name = .ok table → table.column? column = some col →
        ∃ p, x.convert ("SELECT " ++ column ++ " FROM " ++ name ++ " WHERE " ++ column ++ " = " ++
          (Literal.ofChars v).value.sql) = .ok p ∧ p.Tests table name col.property v := by
  refine ⟨⟨vs.map .ofChars, ?_, ?_, ?_⟩, fun v _ => ⟨tests_of_convert, ?_⟩⟩
  · have hls : ∀ l ∈ vs.map Literal.ofChars, l.IsParsed True :=
      List.forall_mem_map.2 fun v _ => Literal.isParsed_ofChars v
    have hparse := Parser.parse_ofLiterals hls (by simpa using hvs)
    rwa [List.map_map] at hparse
  · exact List.forall_mem_map.2 fun v _ => rfl
  · rw [List.map_map]
    rfl
  · intro name column table col hname hcolumn htable hcol
    have hparse := Parser.parse_ofTest hname hcolumn v
    obtain ⟨q, hresolve, hsupported⟩ := exists_resolve_ofTest hcolumn htable hcol v
    obtain ⟨p, hp⟩ := converts_of_isSupported hparse hresolve hsupported
    obtain ⟨table', col', htable', hcol', htests⟩ := tests_of_convert hparse rfl rfl hp
    obtain rfl := Except.ok.inj (htable'.symm.trans htable)
    obtain rfl := Option.some.inj (hcol'.symm.trans hcol)
    exact ⟨p, hp, htests⟩

namespace People

/-- Texts with quotes at their ends and beside each other, and with other characters. -/
def quoted : List String := ["O'Brien", "'", "''", "", "', '", "a\\\n\"b"]

/-- The ages of some people called O'Brien. -/
def namesakes : String :=
  "SELECT DISTINCT p.age FROM person p WHERE p.NAME = 'O''Brien' ORDER BY 1 LIMIT 3"

theorem quoted_survive :
    (∃ ls : List Literal, Parser.parse
        "SELECT 'O''Brien', '''', '''''', '', ''', ''', 'a\\\n\"b'" =
        .ok { Select.empty with items := ls.map .literal } ∧
      ls.map Literal.plain? = quoted.map some) ∧
    (∃ p, (⟨catalog, none, none⟩ : Converter).convert namesakes = .ok p ∧
      p.Tests table "p" "name" "O'Brien") ∧
    ∃ p, (⟨catalog, none, none⟩ : Converter).convert
        "SELECT name FROM person WHERE name = 'O''Brien'" = .ok p ∧
      p.Tests table "person" "name" "O'Brien" := by
  obtain ⟨⟨ls, hparse, -, hplain⟩, htests⟩ :=
    quoted_constants_survive ⟨catalog, none, none⟩ (show quoted ≠ [] by decide)
  obtain ⟨hall, hone⟩ := htests "O'Brien" (by decide)
  have hnamesakes : Parser.parse namesakes = .ok { Select.empty with
      distinct := true
      items := [Parser.column ["p", "age"]]
      source := some (.table ⟨"person", some "p"⟩)
      filter := some (.equalsText ⟨["p", "NAME"], none⟩ "O'Brien")
      orderBy := [⟨.literal (.ofNat 1), false⟩]
      limit := some (.ofNat 3) } := rfl
  have hconverts : ((⟨catalog, none, none⟩ : Converter).convert namesakes).isOk := by decide +kernel
  obtain ⟨p, hp⟩ := Converter.exists_of_isOk hconverts
  obtain ⟨t, col, ht, hcol, htest⟩ := hall hnamesakes rfl rfl hp
  have htable : catalog.table "person" = .ok table := rfl
  have hname {name : String} (h : name = "name" ∨ name = "NAME") :
      table.column? name = some ⟨"name", "name", .varchar⟩ := by
    rcases h with rfl | rfl <;> decide
  obtain rfl := Except.ok.inj (ht.symm.trans htable)
  obtain rfl := Option.some.inj (hcol.symm.trans (hname (.inr rfl)))
  obtain ⟨p', hp', htest'⟩ :=
    hone (by decide) (by decide) htable (hname (.inl rfl))
  have htexts : ", ".intercalate (quoted.map fun v => (Literal.ofChars v).value.sql) =
      "'O''Brien', '''', '''''', '', ''', ''', 'a\\\n\"b'" := by decide
  have htext : "SELECT " ++ "name" ++ " FROM " ++ "person" ++ " WHERE " ++ "name" ++ " = " ++
      (Literal.ofChars "O'Brien").value.sql =
        "SELECT name FROM person WHERE name = 'O''Brien'" := by decide
  rw [htexts] at hparse
  rw [htext] at hp'
  exact ⟨⟨ls, hparse, hplain⟩, ⟨p, hp, htest⟩, p', hp', htest'⟩

end People

end GraphSelect
