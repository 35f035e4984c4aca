import GraphSelect.Proofs.Failures
import GraphSelect.Proofs.Joins
import GraphSelect.Proofs.Parsing
import GraphSelect.Proofs.Resolution
import GraphSelect.Proofs.WholeTrees

/-!
Every failure is explained.

Resolving a query and planning its steps read the operands of calls without asking whether they are
there. In the tree of a text they are, and they still are once the tree is resolved. So whatever the
text and the catalog, either there is a plan, or the text is no query, or the failure has a message
and an argument for every place of it.
-/

namespace GraphSelect

/-- The failures that have a message and an argument for every place of it. -/
def FailureClass.explained : FailureClass where
  Has e := ∃ f, e = .fault f ∧ f.isComplete = true
  plain h := ⟨_, rfl, (Bool.and_eq_true_iff.1 h).2⟩
  within := by
    rintro _ clause ⟨f, rfl, hf⟩
    exact ⟨f.within clause, rfl, hf⟩

namespace Outcome

variable {α : Type}

/-- Work that fails with an explanation only. -/
abbrev IsExplained (x : Outcome α) : Prop := x.FailsIn .explained

lemma isExplained_fault {f : Fault} (h : f.isComplete = true) :
    (fault f : Outcome α).IsExplained :=
  failsIn_error ⟨f, rfl, h⟩

lemma IsExplained.cases {x : Outcome α} (h : x.IsExplained) :
    (∃ a, x = .ok a) ∨ ∃ f, x = fault f ∧ f.isComplete = true := by
  cases x with
  | ok a => exact .inl ⟨a, rfl⟩
  | error e =>
    obtain ⟨f, rfl, hf⟩ := h e rfl
    exact .inr ⟨f, rfl, hf⟩

end Outcome

open Outcome

/-! ### Resolving -/

lemma Catalog.isExplained_table (c : Catalog) (name : String) : (c.table name).IsExplained := by
  unfold table
  split
  · exact failsIn_ok _
  · exact isExplained_fault rfl

namespace Tables

variable (ts : Tables) (i : Identifier)

lemma isExplained_add (name : String) (t : Table) : (ts.add name t).IsExplained := by
  unfold add
  split
  · exact isExplained_fault rfl
  · exact failsIn_ok _

lemma isExplained_owner : (ts.owner i).IsExplained := by
  unfold owner
  repeat' split
  all_goals first | exact failsIn_ok _ | exact isExplained_fault rfl

lemma isExplained_identifier : (ts.identifier i).IsExplained := by
  unfold identifier
  split
  · exact failsIn_ok _
  · exact (ts.isExplained_owner i).map _

lemma isExplained_columns : (ts.columns i).IsExplained := by
  unfold columns
  dsimp only
  repeat' split
  all_goals first | exact failsIn_ok _ | exact isExplained_fault rfl

lemma isExplained_checkStars (items : List Node) : (checkStars ts items).IsExplained := by
  refine FailsIn.forM fun n _ => ?_
  split
  · split
    · exact (ts.isExplained_columns _).map _
    · exact failsIn_ok _
  · exact failsIn_ok _

end Tables

section

variable {c : Catalog} {ts : Tables} {ns : List Node}

lemma isExplained_resolveEach (h : ∀ n ∈ ns, (resolve c ts n).IsExplained) :
    (resolveEach c ts ns).IsExplained := by
  rw [resolveEach_eq_mapM]
  exact FailsIn.mapM h

lemma isExplained_resolveOption {n : Option Node} (h : ∀ m ∈ n, (resolve c ts m).IsExplained) :
    (resolveOption c ts n).IsExplained := by
  cases n with
  | none => exact failsIn_ok _
  | some n => exact FailsIn.map _ (h n rfl)

/-- Only the operands of a call can lack an explanation, unless it is taken to have some. -/
lemma isExplained_call {f : Call} (hquery : f.operator ≠ .scalarQuery)
    (hname : f.operator ≠ .rename) (h : ∀ n ∈ ns, (resolve c ts n).IsExplained) :
    (resolve c ts (.call f ns)).IsExplained := by
  unfold resolve
  split
  case h_1 hf | h_2 hf | h_3 hf => exact absurd hf hquery
  case h_4 hf | h_5 hf => exact absurd hf hname
  case h_6 => exact (isExplained_resolveEach h).bind fun _ _ => failsIn_ok _

lemma isExplained_resolveItems (h : ∀ n ∈ ns, (resolve c ts n).IsExplained) :
    (resolveItems c ts ns).IsExplained := by
  induction ns with
  | nil => exact failsIn_ok _
  | cons n ns ih =>
    obtain ⟨hn, hns⟩ := List.forall_mem_cons.1 h
    cases n with
    | identifier i =>
      rw [resolveItems]
      split
      · exact (ts.isExplained_columns i).bind fun _ _ =>
          (FailsIn.mapM fun j _ => ts.isExplained_identifier j).bind fun _ _ =>
            (ih hns).bind fun _ _ => failsIn_ok _
      · exact ((ts.isExplained_identifier i).map _).bind fun _ _ =>
          (ih hns).bind fun _ _ => failsIn_ok _
    | _ => exact hn.bind fun _ _ => (ih hns).bind fun _ _ => failsIn_ok _

lemma isExplained_namedItems (h : ∀ n ∈ ns, n.HasOperands) : (namedItems ns).IsExplained := by
  induction ns with
  | nil => exact failsIn_ok _
  | cons n ns ih =>
    obtain ⟨hn, hns⟩ := List.forall_mem_cons.1 h
    refine FailsIn.bind ?_ fun _ _ => (ih hns).bind fun _ _ => failsIn_ok _
    cases n with
    | call f operands =>
      by_cases hf : f.operator = .rename
      · rw [Node.HasOperands, hf] at hn
        obtain ⟨x, i, rfl⟩ := hn
        simp only [Node.asName?, hf, if_true]
        exact failsIn_ok _
      · simp only [Node.asName?, hf, if_false]
        exact failsIn_ok _
    | _ => exact failsIn_ok _

lemma isExplained_resolveKeys {named : List (String × Node)} {count : Nat}
    {keys : List (SortKey Node)} (h : ∀ k ∈ keys, (resolve c ts k.expression).IsExplained) :
    (resolveKeys c ts named count keys).IsExplained := by
  induction keys with
  | nil => exact failsIn_ok _
  | cons k keys ih =>
    obtain ⟨hk, hkeys⟩ := List.forall_mem_cons.1 h
    obtain ⟨n, descending⟩ := k
    cases n with
    | identifier i =>
      rw [resolveKeys]
      split
      · exact (failsIn_ok _).bind fun _ _ => (ih hkeys).bind fun _ _ => failsIn_ok _
      · exact (ts.isExplained_identifier i).bind fun _ _ =>
          (ih hkeys).bind fun _ _ => failsIn_ok _
    | literal l =>
      rw [resolveKeys]
      split
      · exact isExplained_fault rfl
      · exact (ih hkeys).bind fun _ _ => failsIn_ok _
    | _ => exact hk.bind fun _ _ => (ih hkeys).bind fun _ _ => failsIn_ok _

end

variable {c : Catalog}

/-- Resolving a tree in its place fails with an explanation only. -/
def Category.IsExplained (c : Catalog) : Category → Node → Prop
  | .expression, n | .item, n => ∀ ts, (resolve c ts n).IsExplained
  | .tables, n => ∀ ts, (resolveSource c ts n).IsExplained
  | .query, n => ∀ q, n = .select q → (resolveSelect c q).IsExplained

/-- A tree that some text denotes is resolved, or it fails with an explanation. -/
theorem isExplained_of_isWritten {k : Category} {n : Node} (h : n.IsWritten k) :
    k.IsExplained c n := by
  have htable (t : TableRef) (ts : Tables) : (resolveSource c ts (.table t)).IsExplained := by
    rw [resolveSource]
    exact (c.isExplained_table _).bind fun _ _ =>
      (ts.isExplained_add _ _).bind fun _ _ => failsIn_ok _
  induction h with
  | column => exact fun ts => (ts.isExplained_identifier _).map _
  | literal => exact fun ts => failsIn_ok _
  | infixed hc _ _ ihx ihy =>
    obtain ⟨hquery, hname, -⟩ := Operator.ne_of_affix (.inl hc)
    exact fun ts => isExplained_call hquery hname (by simpa using ⟨ihx ts, ihy ts⟩)
  | prefixed hc _ ih =>
    obtain ⟨hquery, hname, -⟩ := Operator.ne_of_affix (.inr (.inl hc))
    exact fun ts => isExplained_call hquery hname (by simpa using ih ts)
  | test hc _ ih =>
    obtain ⟨hquery, hname, -⟩ := Operator.ne_of_affix (.inr (.inr hc))
    exact fun ts => isExplained_call hquery hname (by simpa using ih ts)
  | function name hc _ ih =>
    obtain ⟨hquery, hname, -⟩ := hc ▸ Operator.ofFunctionName_ne name
    exact fun ts => isExplained_call hquery hname fun n hn => ih n hn ts
  | cast hc _ t ih =>
    intro ts
    have htype : (resolve c ts (.typeSpec t)).IsExplained := failsIn_ok _
    exact isExplained_call (by simp [hc]) (by simp [hc]) (by simpa using ⟨ih ts, htype⟩)
  | @within f x xs hc _ _ ihx ih =>
    intro ts
    have hlist : (resolve c ts (.list xs)).IsExplained :=
      (isExplained_resolveEach fun n hn => ih n hn ts).map _
    exact isExplained_call (by simp [hc]) (by simp [hc]) (by simpa using ⟨ihx ts, hlist⟩)
  | scalarQuery hc _ ih =>
    intro ts
    simp only [resolve, hc]
    exact (ih _ rfl).bind fun _ _ => failsIn_ok _
  | item _ ih => exact ih
  | named hc _ name ih =>
    intro ts
    simp only [resolve, hc]
    exact (ih ts).bind fun _ _ => failsIn_ok _
  | table t => exact htable t
  | join _ kind t ih =>
    intro ts
    rw [resolveSource]
    exact (ih ts).bind fun _ _ => (htable t _).bind fun _ _ => failsIn_ok _
  | joinOn _ kind t _ ihx ihy =>
    intro ts
    rw [resolveSource]
    exact (ihx ts).bind fun _ _ => (htable t _).bind fun _ _ =>
      (isExplained_resolveOption (by simpa using ihy _)).bind fun _ _ => failsIn_ok _
  | @query q items _ _ _ _ _ ihItems ihSource ihFilter ihGroupBy ihHaving ihOrderBy =>
    rintro _ ⟨⟩
    rw [resolveSelect_eq]
    refine FailsIn.bind ?_ ?_
    · cases hsource : q.source with
      | none => exact failsIn_ok _
      | some n => exact FailsIn.map _ (ihSource n hsource [])
    · rintro ⟨ts, source⟩ -
      refine (ts.isExplained_checkStars _).bind fun _ _ =>
        (isExplained_resolveItems fun n hn => ihItems n hn ts).bind fun items' hitems =>
        (isExplained_resolveOption fun n hn => ihFilter n hn ts).bind fun _ _ =>
        (isExplained_resolveEach fun n hn => ihGroupBy n hn ts).bind fun _ _ =>
        (isExplained_resolveOption fun n hn => ihHaving n hn ts).bind fun _ _ =>
        (isExplained_namedItems fun n' hn' => ?_).bind fun _ _ =>
        (isExplained_resolveKeys fun k hk => ihOrderBy k hk ts).bind fun _ _ => failsIn_ok _
      -- The names of items are read once the items are resolved.
      have hwritten := isWritten_items hitems fun n hn n' hr =>
        isWritten_of_resolves (items n hn) ⟨ts, hr⟩
      exact ((hwritten n' hn').isWhole n' .self).operands

/-! ### Planning -/

variable {s : Scope}

namespace Scope

lemma isExplained_owner (s : Scope) (i : Identifier) : (s.owner i).IsExplained := by
  unfold owner
  dsimp only
  repeat' split
  all_goals first | exact failsIn_ok _ | exact isExplained_fault rfl

lemma isExplained_binding (s : Scope) (name : String) : (s.binding name).IsExplained := by
  unfold binding
  split
  · exact failsIn_ok _
  · exact isExplained_fault rfl

lemma isExplained_bind (s : Scope) (name : String) (t : Table) : (s.bind name t).IsExplained := by
  unfold bind
  split
  · exact isExplained_fault rfl
  · exact failsIn_ok _

end Scope

lemma isExplained_sourceSteps (s : Scope) (n : Node) : (sourceSteps s n).IsExplained := by
  fun_induction sourceSteps s n with
  | case1 t =>
    exact failsIn_tableSteps (s.catalog.isExplained_table _) fun _ _ => s.isExplained_bind _ _
  | case2 left t condition ih =>
    refine ih.bind ?_
    rintro ⟨s, -⟩ -
    exact (failsIn_joinSteps (s.catalog.isExplained_table _) (fun _ _ => s.isExplained_bind _ _)
      fun _ _ _ => s.isExplained_binding _).bind fun _ _ => failsIn_ok _
  | _ => exact failsIn_fault rfl

namespace Node

variable {n : Node}

/-- The parts of a whole tree have texts, and what becomes of its columns is explained. -/
lemma IsWhole.known (h : n.IsWhole) (s : Scope) : n.Known s .explained := by
  refine ⟨fun m hm => ?_, fun _ i _ => s.isExplained_owner i⟩
  obtain ⟨text, htext⟩ := Option.isSome_iff_exists.1 (h m (standsIn_of_mem_parts hm)).text
  simp only [Operand.textOf, htext]
  exact failsIn_ok _

lemma IsWhole.knownItem (h : n.IsWhole) (s : Scope) : n.KnownItem s .explained := by
  refine ⟨?_, fun {e name} he => ?_⟩
  · have hn := (h n .self).operands
    unfold unnamed
    split
    · next f operands =>
      split
      · next hf =>
        rw [HasOperands, hf] at hn
        obtain ⟨x, i, rfl⟩ := hn
        exact failsIn_ok _
      · exact failsIn_ok _
    · exact failsIn_ok _
  · rcases unnamed_cases he with rfl | ⟨f, i, -, rfl⟩
    · exact h.known s
    · have he : e.IsWhole := fun m hm => h m (.child (by simp [children]) hm)
      exact he.known s

lemma IsWhole.sortOperand (h : n.IsWhole) (items : List Item) :
    (sortOperand items n).IsExplained := by
  unfold GraphSelect.sortOperand
  split
  · split
    · exact failsIn_ok _
    · exact failsIn_ok _
  · split
    · split
      · exact failsIn_ok _
      · exact isExplained_fault rfl
    · exact failsIn_ok _
  · exact Operand.failsIn_ofNode (h.known (.initial default)).spells

end Node

/-- A query that some text denotes has a plan, or it fails with an explanation. -/
theorem isExplained_plan {q : Select} (h : q.IsWritten) (source : Option String)
    (maxRows : Option Int) : (plan c source maxRows q).IsExplained := by
  obtain ⟨hitems, -, hfilter, hgroupBy, hhaving, horderBy⟩ := Select.isWritten_iff.1 h
  refine failsIn_plan (fun n _ => isExplained_sourceSteps _ n) fun n row v _ _ => ?_
  exact {
    filter := fun n hn => (hfilter n hn).isWhole.known row
    items := fun n hn => (hitems n hn).isWhole.knownItem row
    groupBy := fun n hn => (hgroupBy n hn).isWhole.known row
    having := fun n hn => (hhaving n hn).isWhole.known row
    orderBy := fun items _ k hk =>
      ⟨(horderBy k hk).isWhole.sortOperand items, fun _ _ i _ => row.isExplained_owner i⟩ }

/-! ### Texts -/

/-- **Every text has a plan, is no query, or fails with an explanation**: in its tree, and in the
resolved tree, every call has the operands that it is taken to have, and its numbers are numbers. -/
theorem convert_isExplained (x : Converter) (text : String) :
    ((∃ p, x.convert text = .ok p) ∨ (∃ e, x.convert text = .error (.unreadable e)) ∨
      ∃ f : Fault, x.convert text = .error (.failed (.fault f)) ∧ f.isComplete = true) ∧
    (∀ q, Parser.parse text = .ok q → (Node.select q).IsWhole ∧
      ∀ q', x.resolve q = .ok q' → (Node.select q').IsWhole) ∧
    ∀ expected cs t, Token.first? expected cs = some t → t.IsReadable := by
  refine ⟨?_, fun q hq => ?_, fun _ _ _ => isReadable_of_first?⟩
  · cases hq : Parser.parse text with
    | error e =>
      refine .inr (.inl ⟨e, ?_⟩)
      rw [Converter.convert, hq]
      rfl
    | ok q =>
      have hwritten := Parser.isWritten_of_parse hq
      have hplan : IsExplained ((x.resolve q).bind x.plan) :=
        FailsIn.bind (isExplained_of_isWritten hwritten q rfl) fun q' hq' =>
          isExplained_plan (hwritten.resolve hq') x.source x.maxRows
      rw [Converter.convert_of_parse hq]
      rcases hplan.cases with ⟨p, hp⟩ | ⟨f, hf, hcomplete⟩
      · exact .inl ⟨p, by rw [hp]; rfl⟩
      · exact .inr (.inr ⟨f, by rw [hf]; rfl, hcomplete⟩)
  · have hwritten := Parser.isWritten_of_parse hq
    exact ⟨Node.IsWritten.isWhole hwritten, fun q' hq' =>
      Node.IsWritten.isWhole (hwritten.resolve hq')⟩

namespace People

/-- A cast, a name and a sub-query. Only the sub-query has no traversal. -/
def subquery : String := "SELECT CAST(age AS DOUBLE) AS years, (SELECT 1.5) FROM person"

theorem explains_subquery :
    (∃ f : Fault, (⟨catalog, none, none⟩ : Converter).convert subquery = .error (.failed (.fault f)) ∧
      f.isComplete = true) ∧
    (∃ q q', Parser.parse subquery = .ok q ∧ q.resolve catalog = .ok q' ∧
      (Node.select q).IsWhole ∧ (Node.select q').IsWhole) ∧
    ∃ t, Token.first? [.decimal] "1.5)".toList = some t ∧ t.IsReadable := by
  obtain ⟨hcases, htrees, htokens⟩ := convert_isExplained ⟨catalog, none, none⟩ subquery
  refine ⟨?_, ?_, ⟨.decimal, ['1', '.', '5']⟩, rfl, htokens [.decimal] "1.5)".toList _ rfl⟩
  · have hfailed : (match (⟨catalog, none, none⟩ : Converter).convert subquery with
      | .error (.failed _) => true
      | _ => false) = true := by decide +kernel
    rcases hcases with ⟨p, hp⟩ | ⟨e, he⟩ | hfault
    · simp [hp] at hfailed
    · simp [he] at hfailed
    · exact hfault
  · have hresolved : (match Parser.parse subquery with
      | .ok q => (q.resolve catalog).isOk
      | .error _ => false) = true := by decide +kernel
    cases hq : Parser.parse subquery with
    | error e => simp [hq] at hresolved
    | ok q =>
      obtain ⟨hwhole, hstays⟩ := htrees q hq
      cases hq' : q.resolve catalog with
      | error e => simp [hq, hq', Except.isOk, Except.toBool] at hresolved
      | ok q' => exact ⟨q, q', rfl, hq', hwhole, hstays q' hq'⟩

end People

end GraphSelect
