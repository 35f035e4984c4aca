import GraphSelect.Proofs.Grouping
import GraphSelect.Proofs.UniqueTokens

/-!
Expressions are told apart by their texts.

Rows are grouped by texts: a call is a key if its text is the name of one, and of two entries of a
grouping with one text the second makes no key. This is right because expressions without
sub-queries have one text only if they differ in nothing but types, as long as names are words and
constants are whole numbers, texts, truth values or `NULL`. The key of a column is no text of a
call.
-/

namespace GraphSelect

open Node

/-- An expression of a query text with its names resolved, without sub-queries, in which names are
words and constants are plain. -/
structure Node.IsResolved (c : Catalog) (e : Node) : Prop where
  query : ∃ text p q, Parser.parse text = .ok p ∧ p.resolve c = .ok q ∧ e.StandsIn (.select q)
  isExpression : e.isExpression = true
  isBasic : e.IsBasic

/-- Whether tables and properties are named by words. -/
def Scope.HasPlainWords (s : Scope) : Prop :=
  ∀ b ∈ s.bindings, isPlainWord b.name.toList = true ∧
    ∀ col ∈ b.table.columns, isPlainWord col.property.toList = true

variable {c : Catalog} {e e' : Node} {text : String}

/-! ### Texts of expressions -/

lemma Node.isBasic_identifier {i : Identifier}
    (h : ∀ name ∈ i.names, isPlainWord name.toList = true) : (Node.identifier i).IsBasic :=
  forall_standsIn_leaf ⟨rfl, fun name hname => .inl (h name hname)⟩ rfl

lemma Node.HasPlainWords.untyped (h : e.HasPlainWords) : e.untyped.HasPlainWords := by
  cases e with
  | call f ns =>
    rw [untyped_call]
    exact h
  | list ns =>
    rw [untyped_list]
    exact h
  | _ => exact h

lemma Node.IsBasic.untyped (h : e.IsBasic) : e.untyped.IsBasic := by
  intro k hk
  obtain ⟨m, hm, rfl | rfl⟩ := exists_of_standsIn_untyped hk
  · exact h k hm
  · exact ⟨(isQuery_untyped m).trans (h m hm).1, (h m hm).2.untyped⟩

/-- The text of an expression spells the tokens that it has without its types. -/
lemma textSpells_untyped (h : e.untyped.IsParsed False .item) (he : e.IsBasic) :
    TextSpells e.sql? e.untyped.tokens := by
  have hprints := h.isWritten.prints fun m hm => (he.untyped m hm).2
  rwa [Prints, sql?_untyped] at hprints

lemma untyped_eq_of_sql? (h : e.untyped.IsParsed False .item) (he : e.IsBasic)
    (h' : e'.untyped.IsParsed False .item) (he' : e'.IsBasic) (htext : e.sql? = e'.sql?) :
    e.untyped = e'.untyped := by
  obtain ⟨w, hw, hspells⟩ := textSpells_untyped h he
  obtain ⟨w', hw', hspells'⟩ := textSpells_untyped h' he'
  obtain rfl : w = w' := Option.some.inj (hw.symm.trans (htext.trans hw'))
  exact Printed.tokens_injective h he.untyped h' he'.untyped (hspells.unique hspells')

namespace Node.IsResolved

/-- Without its types a resolved expression is one that the parser builds. -/
lemma isParsed_untyped (h : e.IsResolved c) : e.untyped.IsParsed False .item := by
  obtain ⟨text, p, q, hp, hq, he⟩ := h.query
  have hparsed : (Node.select p).IsParsed False .query :=
    Parser.isParsed_of_parse (fun _ _ => False.elim) hp
  have hkept := hparsed.staysKept _ ⟨p, q, rfl, rfl, hq⟩
  exact hkept.expressions e he h.isExpression fun m hm => (h.isBasic m hm).1

lemma untyped_eq (h : e.IsResolved c) (h' : e'.IsResolved c) (htext : e.sql? = e'.sql?) :
    e.untyped = e'.untyped :=
  untyped_eq_of_sql? h.isParsed_untyped h.isBasic h'.isParsed_untyped h'.isBasic htext

/-- A text of a call is not that of a column. -/
lemma ne_groupKey {f : Call} {ns : List Node} (h : (Node.call f ns).IsResolved c)
    {label property : String} (hl : isPlainWord label.toList = true)
    (hp : isPlainWord property.toList = true) :
    (Node.call f ns).sql? ≠ some (Scope.groupKey label property) := by
  intro htext
  have hcolumn : (Parser.column [label, property]).sql? = some (Scope.groupKey label property) := by
    rw [Parser.column, sql?]
    simp [Identifier.text, Scope.groupKey, String.intercalate_cons_cons]
  have hparsed : (Parser.column [label, property]).IsParsed False .item :=
    .item (.column (.inr rfl) False.elim)
  have hbasic : (Parser.column [label, property]).IsBasic :=
    isBasic_identifier (by simp [hl, hp])
  have heq : (Node.call f ns).untyped = (Parser.column [label, property]).untyped :=
    untyped_eq_of_sql? h.isParsed_untyped h.isBasic hparsed hbasic (htext.trans hcolumn.symm)
  rw [untyped_call] at heq
  cases heq

end Node.IsResolved

/-! ### Keys -/

/-- A call is read as a key only if an entry of the grouping is the same call. -/
lemma exists_entry {f : Call} {ns : List Node} (h : (Node.call f ns).IsResolved c)
    (htext : (Node.call f ns).sql? = some text) {s : Scope} (hs : s.HasPlainWords)
    {groupBy : List Node} (hgroupBy : ∀ g ∈ groupBy, g.IsResolved c)
    {keys : List (String × Steps)} (hkeys : groupKeysFrom s [] groupBy = .ok keys)
    (hmem : text ∈ keys.map (·.1)) : ∃ g ∈ groupBy, g.untyped = (Node.call f ns).untyped := by
  obtain ⟨k, hk, rfl⟩ := List.mem_map.1 hmem
  obtain ⟨g, o, hkey⟩ := (exists_isKey hkeys hk).resolve_left List.not_mem_nil
  refine ⟨g, hkey.mem, (hgroupBy g hkey.mem).untyped_eq h ?_⟩
  rw [htext]
  have hname := hkey.name
  cases o with
  | column i =>
    obtain ⟨⟨b, col⟩, howner, hname⟩ := Outcome.map_eq_ok.1 hname
    obtain ⟨-, hcol, -⟩ := Scope.owner_cases howner
    obtain ⟨hlabel, hproperties⟩ := hs b (Scope.mem_of_owner howner)
    have hproperty := hproperties col (List.mem_of_find?_eq_some hcol)
    rw [← hname] at htext
    exact absurd htext (h.ne_groupKey hlabel hproperty)
  | _ => exact Operand.textOf_eq_ok.1 hname

/-- The entries of a grouping make keys one after the other. -/
lemma groupKeysFrom_append (s : Scope) (before : List (String × Steps)) (ns ms : List Node) :
    groupKeysFrom s before (ns ++ ms) =
      groupKeysFrom s before ns >>= (groupKeysFrom s · ms) := by
  induction ns generalizing before with
  | nil => rfl
  | cons n ns ih =>
    simp only [List.cons_append, groupKeysFrom, bind_assoc]
    refine bind_congr fun o => bind_congr fun name => ?_
    split
    · exact ih before
    · simp only [bind_assoc]
      exact bind_congr fun v => ih _

/-- An entry of a grouping behind all others adds no key only if it has the name of one. -/
lemma mem_keys_of_merged {s : Scope} {keys : List (String × Steps)} {f : Call} {ns : List Node}
    (htext : (Node.call f ns).sql? = some text)
    (h : groupKeysFrom s keys [.call f ns] = .ok keys) : text ∈ keys.map (·.1) := by
  obtain ⟨o, ho, h⟩ := Outcome.bind_eq_ok.1 h
  obtain ⟨name, hname, h⟩ := Outcome.bind_eq_ok.1 h
  obtain ⟨os, -, ho⟩ := Outcome.bind_eq_ok.1 (Operand.ofNode_call f ns ▸ ho)
  obtain ⟨text', -, ho⟩ := Outcome.bind_eq_ok.1 ho
  cases ho
  obtain rfl : text = name :=
    Option.some.inj (htext.symm.trans (Operand.textOf_eq_ok.1 hname))
  split at h
  · next hold =>
    obtain ⟨k, hk, hkname⟩ := List.lookup_isSome_iff.1 hold
    exact List.mem_map.2 ⟨k, hk, (eq_of_beq hkname).symm⟩
  · obtain ⟨v, -, h⟩ := Outcome.bind_eq_ok.1 h
    have hlength := congrArg List.length (Except.ok.inj h)
    simp at hlength

/-- **An expression is told by its text.** Two expressions have one text only if they differ in
nothing but types, and the text of a call is the name of no column's key. So where rows are grouped
a call is read as a key only if the same call is an entry of the grouping, and of two calls in a
grouping the second adds no key only if it is the first once more. -/
theorem texts_tell_expressions {c : Catalog} :
    (∀ e e' : Node, e.IsResolved c → e'.IsResolved c → e.sql? = e'.sql? →
      e.untyped = e'.untyped) ∧
    ∀ f ns, (Node.call f ns).IsResolved c → ∃ text, (Node.call f ns).sql? = some text ∧
      (∀ label property, isPlainWord label.toList = true → isPlainWord property.toList = true →
        text ≠ Scope.groupKey label property) ∧
      ∀ (s : Scope) groupBy keys, s.HasPlainWords → (∀ g ∈ groupBy, g.IsResolved c) →
        groupKeysFrom s [] groupBy = .ok keys →
        ((s.startGrouping (keys.map (·.1))).isGroupKey text = true →
          ∃ g ∈ groupBy, g.untyped = (Node.call f ns).untyped) ∧
        (groupKeysFrom s [] (groupBy ++ [.call f ns]) = .ok keys →
          ∃ g ∈ groupBy, g.untyped = (Node.call f ns).untyped) := by
  refine ⟨fun e e' h h' => h.untyped_eq h', fun f ns h => ?_⟩
  obtain ⟨text, htext, -⟩ := textSpells_untyped h.isParsed_untyped h.isBasic
  refine ⟨text, htext, fun label property hl hp heq => ?_, ?_⟩
  · exact h.ne_groupKey hl hp (heq ▸ htext)
  intro s groupBy keys hs hgroupBy hkeys
  refine ⟨fun hkey => ?_, fun hmerged => ?_⟩
  · simp only [Scope.isGroupKey, Scope.startGrouping, Scope.groupKeys, Option.getD_some,
      Bool.and_eq_true, List.contains_iff_mem] at hkey
    exact exists_entry h htext hs hgroupBy hkeys hkey.2
  · rw [groupKeysFrom_append, hkeys] at hmerged
    exact exists_entry h htext hs hgroupBy hkeys (mem_keys_of_merged htext hmerged)

namespace Letters

def scope : Scope := ⟨catalog, catalog.tables.map fun t => ⟨t.name, t⟩, none, false⟩

/-- `SELECT X, Y + 1 FROM T GROUP BY X, Y + 1`, with expressions for `X` and for `Y + 1`. -/
def sums (x y : Node) : Select :=
  { Select.empty with
    items := [x, y]
    source := some (.table ⟨"T", none⟩)
    groupBy := [x, y] }

/-- `Y + 1`, with the column and the types of the column and the sum. -/
def sum (names : List String) (type : Option TypeName) : Node :=
  .call ⟨.arithmetic .plus, false, type⟩
    [.identifier ⟨names, type⟩, .literal ⟨.int 1, .integer⟩]

/-- The expressions once they are resolved. -/
def column : Node := .identifier ⟨["T", "X"], some .varchar⟩

def resolvedSum : Node := sum ["T", "Y"] (some .integer)

lemma isResolved_of_groupBy {g : Node} (hg : g ∈ (sums column resolvedSum).groupBy)
    (hexpression : g.isExpression = true) (hbasic : g.IsBasic) : g.IsResolved catalog :=
  have hparse : Parser.parse "SELECT X, Y + 1 FROM T GROUP BY X, Y + 1" =
      .ok (sums (Parser.column ["X"]) (sum ["Y"] none)) := rfl
  have hresolve : (sums (Parser.column ["X"]) (sum ["Y"] none)).resolve catalog =
      .ok (sums column resolvedSum) := rfl
  ⟨⟨_, _, _, hparse, hresolve, .child (by simp [children, hg]) .self⟩, hexpression, hbasic⟩

/-- A sum is read as the key that it makes, which is not the key of a column, and makes no second
one. -/
theorem sum_is_key : ∃ text keys, resolvedSum.sql? = some text ∧
    text ≠ Scope.groupKey "T" "y" ∧
    groupKeysFrom scope [] (sums column resolvedSum).groupBy = .ok keys ∧
    ((scope.startGrouping (keys.map (·.1))).isGroupKey text = true ∧
      ∃ g ∈ (sums column resolvedSum).groupBy, g.untyped = resolvedSum.untyped) ∧
    (groupKeysFrom scope [] ((sums column resolvedSum).groupBy ++ [resolvedSum]) = .ok keys ∧
      ∃ g ∈ (sums column resolvedSum).groupBy, g.untyped = resolvedSum.untyped) ∧
    ∀ e : Node, e.IsResolved catalog → e.sql? = some text → e.untyped = sum ["T", "Y"] none := by
  have hcolumn : column.IsResolved catalog :=
    isResolved_of_groupBy List.mem_cons_self rfl (isBasic_identifier (by decide))
  have hsum : resolvedSum.IsResolved catalog := by
    refine isResolved_of_groupBy (by simp [sums]) rfl
      (forall_standsIn ⟨rfl, fun _ hop => by cases hop⟩ ?_)
    exact List.forall_mem_cons.2 ⟨isBasic_identifier (by decide),
      List.forall_mem_singleton.2 (forall_standsIn_leaf ⟨rfl, rfl⟩ rfl)⟩
  have hgroupBy : ∀ g ∈ (sums column resolvedSum).groupBy, g.IsResolved catalog :=
    List.forall_mem_cons.2 ⟨hcolumn, List.forall_mem_singleton.2 hsum⟩
  have hscope : scope.HasPlainWords := by
    simp only [Scope.HasPlainWords, scope, catalog]
    decide
  obtain ⟨hunique, hcalls⟩ := texts_tell_expressions (c := catalog)
  obtain ⟨text, htext, hne, hkeys⟩ := hcalls _ _ hsum
  obtain rfl : text = "T.Y + 1" := Option.some.inj (htext.symm.trans rfl)
  obtain ⟨hread, hmerged⟩ := hkeys scope _ _ hscope hgroupBy rfl
  exact ⟨_, _, htext, hne "T" "y" (by decide) (by decide), rfl, ⟨rfl, hread rfl⟩,
    ⟨rfl, hmerged rfl⟩, fun e he hetext => hunique e _ he hsum (hetext.trans htext.symm)⟩

end Letters

end GraphSelect
