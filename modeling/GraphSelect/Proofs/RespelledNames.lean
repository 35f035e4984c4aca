import GraphSelect.Proofs.LetterCase
import GraphSelect.Proofs.Resolved
import GraphSelect.Proofs.WellScoped

/-!
Queries that differ in the case of their names.

Tables and columns are looked up without regard to case, and a column that has been found is spelled
as in the catalog. A star is no column, and no other name is one in lower case. So a query whose
columns and tables are spelled in another case, while the names that its tables are bound to and
those of its select items stay, resolves to the same query, except that the tables of its `FROM`
clause keep their spelling, and has the same plan. The tables of a sub-query have to be spelled as
they were: they keep their spelling in the text of the expression around it, which is compared with
the names of group keys.
-/

namespace GraphSelect

/-! ### Names -/

namespace Text

lemma ofNat_ne_star {n : Nat} (h : 0x2A < n) : Char.ofNat n ≠ '*' := by
  intro hn
  by_cases hvalid : n.isValidChar
  · rw [Char.ofNat, dif_pos hvalid] at hn
    have hval : n = 0x2A := congrArg Char.toNat hn
    omega
  · rw [Char.ofNat, dif_neg hvalid] at hn
    exact absurd hn (by decide)

lemma lowerChar_ne_nil (c : Char) : lowerChar c ≠ [] := by
  have hsequences : ∀ p ∈ lowerSequences, p.2 ≠ [] := by decide
  unfold lowerChar otherCase
  split
  · simp
  · split
    · next ns h =>
      simpa using hsequences _ (mem_of_lookup h)
    · simp

/-- No other character than a star has one in its lower case. -/
lemma star_of_mem_lowerChar {c : Char} (h : '*' ∈ lowerChar c) : c = '*' := by
  have hsequences : ∀ p ∈ lowerSequences, ∀ n ∈ p.2, 0x2A < n := by decide
  have hruns : ∀ r ∈ lowerRuns, 0x2A < r.first + r.shift := by decide +kernel
  unfold lowerChar at h
  split at h
  · have hlower := apply_toLower (f := (· == '*')) (by decide) c
    rwa [← List.mem_singleton.1 h, beq_self_eq_true, eq_comm, beq_iff_eq] at hlower
  · unfold otherCase at h
    split at h
    · next ns hns =>
      obtain ⟨n, hn, hstar⟩ := List.mem_map.1 h
      exact absurd hstar (ofNat_ne_star (hsequences _ (mem_of_lookup hns) n hn))
    · cases hfound : lowerRuns.findSome? (·.map? c.toNat) with
      | none => simpa [hfound, eq_comm] using h
      | some n =>
        obtain ⟨r, hr, hn⟩ := List.exists_of_findSome?_eq_some hfound
        unfold CaseRun.map? at hn
        split at hn
        · cases hn
          have hshift := hruns r hr
          simp only [hfound, Option.map_some, Option.getD_some, List.mem_singleton] at h
          exact absurd h.symm (ofNat_ne_star (by omega))
        · cases hn

lemma length_le_lowerFrom (before cs : List Char) :
    cs.length ≤ (lowerFrom before cs).length := by
  induction cs generalizing before with
  | nil => exact Nat.le_refl 0
  | cons c cs ih =>
    have hone : 0 < (if c = 'Σ' then [if startsCased before && !startsCased cs then 'ς' else 'σ']
        else lowerChar c).length := by
      split
      · exact Nat.one_pos
      · exact List.length_pos_iff.2 (lowerChar_ne_nil c)
    have hrest := ih (c :: before)
    rw [lowerFrom, List.length_append, List.length_cons]
    omega

lemma star_of_mem_lowerFrom {before cs : List Char} (h : '*' ∈ lowerFrom before cs) :
    '*' ∈ cs := by
  induction cs generalizing before with
  | nil => exact h
  | cons c cs ih =>
    rw [lowerFrom, List.mem_append] at h
    rcases h with h | h
    · split at h
      · rw [List.mem_singleton] at h
        split at h <;> simp at h
      · exact star_of_mem_lowerChar h ▸ List.mem_cons_self
    · exact List.mem_cons_of_mem c (ih h)

/-- No other text than a star is one in lower case. -/
lemma eq_star_of_lower {s : String} (h : lower s = "*") : s = "*" := by
  have hlower : lowerFrom [] s.toList = ['*'] := String.ofList_injective h
  have hlength := length_le_lowerFrom [] s.toList
  have hmem : '*' ∈ s.toList := star_of_mem_lowerFrom (hlower ▸ List.mem_singleton_self '*')
  rw [hlower] at hlength
  obtain ⟨c, hc⟩ := List.length_eq_one_iff.1
    (Nat.le_antisymm hlength (List.length_pos_of_mem hmem))
  rw [hc, List.mem_singleton] at hmem
  exact String.toList_injective (hc.trans (by rw [← hmem]; rfl))

end Text

lemma sameName_self (name : String) : sameName name name = true := decide_eq_true rfl

section

variable {name name' : String}

lemma eq_star_iff_of_sameName (h : sameName name name' = true) : name' = "*" ↔ name = "*" := by
  have hlower : Text.lower name = Text.lower name' := of_decide_eq_true h
  constructor
  · rintro rfl
    exact Text.eq_star_of_lower hlower
  · rintro rfl
    exact Text.eq_star_of_lower hlower.symm

lemma Table.column?_of_sameName (h : sameName name name' = true) (t : Table) :
    t.column? name' = t.column? name := by
  have hlower : Text.lower name = Text.lower name' := of_decide_eq_true h
  simp only [column?, sameName, hlower]

lemma Catalog.table_of_sameName {c : Catalog} {t : Table} (h : sameName name name' = true)
    (ht : c.table name = .ok t) : c.table name' = .ok t := by
  have hlower : Text.lower name = Text.lower name' := of_decide_eq_true h
  simp only [table, table?, sameName, ← hlower] at ht ⊢
  split at ht <;> simp_all

end

/-! ### Respelling -/

/-- A table under another spelling of its name, bound to the same name. -/
structure TableRef.Respells (t t' : TableRef) : Prop where
  name : sameName t.name t'.name = true
  asName : t'.asName = t.asName
  binding : t'.binding = t.binding

namespace TableRef

lemma respells_of_eq (t t' : TableRef) (h : t = t') : t.Respells t' := by
  subst h
  exact ⟨sameName_self t.name, rfl, rfl⟩

/-- A table with an alias is bound to that, however its own name is spelled. -/
lemma respells_of_asName {name name' label : String} (h : sameName name name' = true)
    (hlabel : label ≠ "") : (mk name (some label)).Respells (mk name' (some label)) :=
  ⟨h, rfl, by simp [binding, asName?, Option.filter, hlabel]⟩

end TableRef

/-- A column under another spelling of its name. The name that qualifies it stays. -/
inductive Identifier.Respells : Identifier → Identifier → Prop
  | mk (qualifier : List String) (type : Option TypeName) {name name' : String}
      (h : sameName name name' = true) :
      Respells ⟨qualifier ++ [name], type⟩ ⟨qualifier ++ [name'], type⟩

/-- A `FROM` clause with its tables and the conditions of its joins spelled in another way. -/
inductive Node.SourceRespells (T : TableRef → TableRef → Prop) (E : Node → Node → Prop) :
    Node → Node → Prop
  | table {t t' : TableRef} (h : T t t') : SourceRespells T E (.table t) (.table t')
  | join {left left' right right' : Node} {condition condition' : Option Node} (kind : JoinKind)
      (hleft : SourceRespells T E left left') (hright : SourceRespells T E right right')
      (hcondition : Option.Rel E condition condition') :
      SourceRespells T E (.join left kind right condition) (.join left' kind right' condition')

/-- An entry of an ordering with its expression spelled in another way. -/
inductive SortKey.Respells (E : Node → Node → Prop) : SortKey Node → SortKey Node → Prop
  | mk {n n' : Node} (descending : Bool) (h : E n n') : Respells E ⟨n, descending⟩ ⟨n', descending⟩

/-- An entry of an ordering that is the name of a select item stays, and no other becomes one. -/
structure SortKey.KeepsAliases (aliases : List String) (k k' : SortKey Node) : Prop where
  kept : ∀ i, k.expression = .identifier i → i.isSimple = true → i.simple ∈ aliases → k' = k
  free : ∀ i, k'.expression = .identifier i → i.isSimple = true → i.simple ∈ aliases → k' = k

/-- A select with its tables and its expressions spelled in another way. The names of its items
stay, also in its ordering. -/
inductive Select.Respells (T : TableRef → TableRef → Prop) (E : Node → Node → Prop) :
    Select → Select → Prop
  | mk (distinct : Bool) {items items' : List Node} (hitems : List.Forall₂ E items items')
      {source source' : Option Node} (hsource : Option.Rel (Node.SourceRespells T E) source source')
      {filter filter' : Option Node} (hfilter : Option.Rel E filter filter')
      {groupBy groupBy' : List Node} (hgroupBy : List.Forall₂ E groupBy groupBy')
      {having having' : Option Node} (hhaving : Option.Rel E having having')
      {orderBy orderBy' : List (SortKey Node)}
      (hkeys : List.Forall₂ (SortKey.Respells E) orderBy orderBy')
      (hnames : List.Forall₂ (SortKey.KeepsAliases (items.filterMap Node.alias?)) orderBy orderBy')
      (limit offset : Option Literal) :
      Respells T E ⟨distinct, items, source, filter, groupBy, having, orderBy, limit, offset⟩
        ⟨distinct, items', source', filter', groupBy', having', orderBy', limit, offset⟩

/-- An expression with its columns spelled in another way. In its sub-queries the tables may be too,
as far as `T` allows. The name of a select item is not a column, and stays. -/
inductive Node.Respells (T : TableRef → TableRef → Prop) : Node → Node → Prop
  | identifier {i i' : Identifier} (h : i.Respells i') : Respells T (.identifier i) (.identifier i')
  | literal (l : Literal) : Respells T (.literal l) (.literal l)
  | typeSpec (t : TypeSpec) : Respells T (.typeSpec t) (.typeSpec t)
  | list {ns ns' : List Node} (h : List.Forall₂ (Respells T) ns ns') :
      Respells T (.list ns) (.list ns')
  | call {f : Call} {ns ns' : List Node} (hf : f.operator ≠ .rename)
      (h : List.Forall₂ (Respells T) ns ns') : Respells T (.call f ns) (.call f ns')
  | named {f : Call} {n n' : Node} (hf : f.operator = .rename) (h : Respells T n n')
      (rest : List Node) : Respells T (.call f (n :: rest)) (.call f (n' :: rest))
  | select {q q' : Select} (h : Select.Respells T (Respells T) q q') :
      Respells T (.select q) (.select q')

lemma optionRel_eq_iff {a b : Option Node} : Option.Rel Eq a b ↔ a = b := by
  constructor
  · rintro (h | _)
    · rw [h]
    · rfl
  · rintro rfl
    cases a with
    | none => exact .none
    | some n => exact .some rfl

/-! ### Columns -/

section

variable {i i' j : Identifier}

namespace Identifier.Respells

lemma isStar_eq (h : i.Respells i') : i'.isStar = i.isStar := by
  obtain ⟨qualifier, type, h⟩ := h
  simp [isStar, simple, eq_star_iff_of_sameName h]

lemma eq_of_isStar (h : i.Respells i') (hi : i.isStar = true) : i' = i := by
  have hi' := h.isStar_eq.trans hi
  obtain ⟨qualifier, type, h⟩ := h
  simp only [isStar, simple, List.getLastD_concat, decide_eq_true_eq] at hi hi'
  rw [hi, hi']

end Identifier.Respells

namespace Tables

variable {ts : Tables}

lemma owner_respells {found : String × Column} (h : i.Respells i') (hi : ts.owner i = .ok found) :
    ts.owner i' = .ok found := by
  obtain ⟨qualifier, type, h⟩ := h
  have hcolumn := Table.column?_of_sameName h
  unfold owner at hi ⊢
  match qualifier with
  | [] =>
    simp only [List.nil_append, owners, hcolumn] at hi ⊢
    split at hi <;> simp_all
  | [name] =>
    simp only [List.cons_append, List.nil_append, hcolumn] at hi ⊢
    split at hi <;> simp_all
  | _ :: _ :: _ => simp at hi

/-- A column is found under any spelling, and spelled as in the catalog. -/
lemma identifier_respells (h : i.Respells i') (hi : ts.identifier i = .ok j) :
    ts.identifier i' = .ok j := by
  by_cases hstar : i.isStar = true
  · rwa [h.eq_of_isStar hstar]
  · rw [identifier, if_neg hstar] at hi
    obtain ⟨found, howner, rfl⟩ := Outcome.map_eq_ok.1 hi
    rw [identifier, h.isStar_eq, if_neg hstar, owner_respells h howner, Outcome.map_ok]

end Tables

end

/-! ### Expressions -/

/-- A tree that resolves to whatever another one does. -/
def ResolvesAlike (c : Catalog) (ts : Tables) (n n' : Node) : Prop :=
  ∀ m, resolve c ts n = .ok m → resolve c ts n' = .ok m

/-- A tree that resolves to the same under every spelling. The tables of sub-queries are spelled as
they are. -/
def IgnoresCase (c : Catalog) (ts : Tables) (n : Node) : Prop :=
  ∀ n', n.Respells Eq n' → ResolvesAlike c ts n n'

section

variable {c : Catalog} {ts : Tables} {T : TableRef → TableRef → Prop} {n n' : Node}
  {ns ns' ms : List Node}

lemma Node.Respells.of_call {f : Call} (hf : f.operator ≠ .rename)
    (h : (Node.call f ns).Respells T n') :
    ∃ ns', n' = .call f ns' ∧ List.Forall₂ (Node.Respells T) ns ns' := by
  cases h with
  | call _ h => exact ⟨_, rfl, h⟩
  | named hname => exact absurd hname hf

/-- Trees resolve alike member by member if each member does under every spelling. -/
lemma forall₂_resolvesAlike (h : List.Forall₂ (Node.Respells Eq) ns ns')
    (hns : ∀ n ∈ ns, IgnoresCase c ts n) :
    List.Forall₂ (ResolvesAlike c ts) ns ns' :=
  ((List.forall₂_and_left ns ns').2 ⟨hns, h⟩).imp fun _ n' ⟨hn, h⟩ => hn n' h

lemma resolveEach_alike (h : List.Forall₂ (ResolvesAlike c ts) ns ns')
    (hns : resolveEach c ts ns = .ok ms) : resolveEach c ts ns' = .ok ms := by
  induction h generalizing ms with
  | nil => exact hns
  | cons hn _ ih =>
    obtain ⟨m, hm, hns⟩ := Outcome.bind_eq_ok.1 hns
    obtain ⟨ms, hms, hns⟩ := Outcome.bind_eq_ok.1 hns
    cases hns
    simp [resolveEach, hn m hm, ih hms]

lemma resolveOption_alike {n n' m : Option Node} (h : Option.Rel (Node.Respells Eq) n n')
    (hns : ∀ x ∈ n, IgnoresCase c ts x) (hn : resolveOption c ts n = .ok m) :
    resolveOption c ts n' = .ok m := by
  cases h with
  | none => exact hn
  | some h =>
    obtain ⟨m, hm, rfl⟩ := Outcome.map_eq_ok.1 hn
    rw [resolveOption, hns _ rfl _ h m hm, Outcome.map_ok]

lemma ignoresCase_call {f : Call} (hquery : f.operator ≠ .scalarQuery)
    (hname : f.operator ≠ .rename) (hns : ∀ n ∈ ns, IgnoresCase c ts n) :
    IgnoresCase c ts (.call f ns) := by
  intro n' h m hm
  obtain ⟨ns', rfl, hns'⟩ := h.of_call hname
  rw [resolve_call_eq hquery hname] at hm ⊢
  obtain ⟨ms, hms, rfl⟩ := Outcome.map_eq_ok.1 hm
  rw [resolveEach_alike (forall₂_resolvesAlike hns' hns) hms, Outcome.map_ok]

lemma ignoresCase_list (hns : ∀ n ∈ ns, IgnoresCase c ts n) : IgnoresCase c ts (.list ns) := by
  intro n' h m hm
  cases h with
  | list h =>
    obtain ⟨ms, hms, rfl⟩ := Outcome.map_eq_ok.1 hm
    rw [resolve, resolveEach_alike (forall₂_resolvesAlike h hns) hms, Outcome.map_ok]

/-! ### Items and orderings -/

lemma Node.Respells.isStar_eq (h : n.Respells T n') : n'.isStar = n.isStar := by
  cases h with
  | identifier h => exact h.isStar_eq
  | _ => rfl

lemma Node.Respells.eq_of_isStar (h : n.Respells T n') (hn : n.isStar = true) : n' = n := by
  cases h with
  | identifier h => rw [h.eq_of_isStar hn]
  | _ => cases hn

lemma checkStars_cons (ts : Tables) (n : Node) (ns : List Node) :
    checkStars ts (n :: ns) = (do checkStars ts [n]; checkStars ts ns) := by
  simp [checkStars]

lemma checkStars_of_not_isStar (hn : n.isStar = false) : checkStars ts [n] = .ok () := by
  cases n with
  | identifier i =>
    have hi : i.isStar = false := hn
    simp [checkStars, hi]
  | _ => rfl

lemma checkStars_respells (h : List.Forall₂ (Node.Respells T) ns ns') :
    checkStars ts ns' = checkStars ts ns := by
  induction h with
  | nil => rfl
  | @cons n n' ns ns' hn _ ih =>
    rw [checkStars_cons, checkStars_cons ts n, ih]
    cases hstar : n.isStar with
    | true => rw [hn.eq_of_isStar hstar]
    | false =>
      rw [checkStars_of_not_isStar hstar, checkStars_of_not_isStar (hn.isStar_eq.trans hstar)]

lemma resolveItems_head (c : Catalog) (ts : Tables) (n : Node) (ns : List Node) :
    resolveItems c ts (n :: ns) = (do
      let before ← resolveItems c ts [n]
      return before ++ (← resolveItems c ts ns)) := by
  cases n with
  | identifier i => by_cases hi : i.isStar = true <;> simp [resolveItems, hi]
  | _ => simp [resolveItems]

lemma resolveItems_of_not_isStar (hn : n.isStar = false) :
    resolveItems c ts [n] = (resolve c ts n).map ([·]) := by
  cases n with
  | identifier i =>
    have hi : i.isStar = false := hn
    simp only [resolveItems, hi, resolve]
    cases ts.identifier i <;> rfl
  | _ =>
    simp only [resolveItems]
    cases resolve c ts _ <;> rfl

/-- A star stays, and any other item resolves alike. -/
lemma resolveItems_alike (h : List.Forall₂ (Node.Respells Eq) ns ns')
    (hns : ∀ n ∈ ns, IgnoresCase c ts n)
    (hms : resolveItems c ts ns = .ok ms) : resolveItems c ts ns' = .ok ms := by
  induction h generalizing ms with
  | nil => exact hms
  | @cons n n' ns ns' h _ ih =>
    obtain ⟨hn, hns⟩ := List.forall_mem_cons.1 hns
    rw [resolveItems_head] at hms ⊢
    obtain ⟨before, hbefore, hms⟩ := Outcome.bind_eq_ok.1 hms
    obtain ⟨after, hafter, hms⟩ := Outcome.bind_eq_ok.1 hms
    have hbefore' : resolveItems c ts [n'] = .ok before := by
      cases hstar : n.isStar with
      | true => rwa [h.eq_of_isStar hstar]
      | false =>
        rw [resolveItems_of_not_isStar hstar] at hbefore
        obtain ⟨m, hm, rfl⟩ := Outcome.map_eq_ok.1 hbefore
        rw [resolveItems_of_not_isStar (h.isStar_eq.trans hstar), hn n' h m hm, Outcome.map_ok]
    rw [hbefore', ih hns hafter]
    exact hms

lemma alias?_expand (ts : Tables) (n : Node) :
    (ts.expand n).filterMap Node.alias? = n.alias?.toList := by
  cases n with
  | identifier i =>
    refine List.filterMap_eq_nil_iff.2 fun m hm => ?_
    rcases Tables.mem_expand hm with rfl | ⟨j, rfl, -⟩ <;> rfl
  | call f ns =>
    simp only [Tables.expand, List.filterMap_cons, List.filterMap_nil]
    cases (Node.call f ns).alias? <;> rfl
  | _ => rfl

/-- The columns that a star stands for have not been given names. -/
lemma Select.expand_aliases (ts : Tables) (q : Select) : (q.expand ts).aliases = q.aliases := by
  unfold aliases expand
  dsimp only
  induction q.items with
  | nil => rfl
  | cons n ns ih =>
    rw [List.flatMap_cons, List.filterMap_append, alias?_expand, ih, List.filterMap_cons]
    cases n.alias? <;> rfl

variable {named : List (String × Node)} {count : Nat} {aliases : List String}

/-- A name of a select item stays one and any other column is still none, so an entry of an ordering
is read in the same way. -/
lemma keyResolves_alike {k k' : SortKey Node} {m : Node}
    (haliases : ∀ name, name ∈ aliases ↔ named.lookup name ≠ none)
    (h : k.expression.Respells T k'.expression) (hnames : k.KeepsAliases aliases k')
    (hk : ResolvesAlike c ts k.expression k'.expression)
    (hm : KeyResolves c ts named count k.expression m) :
    KeyResolves c ts named count k'.expression m := by
  revert hm
  generalize hn : k.expression = n at h hk
  intro hm
  cases hm with
  | @name i x hi hx =>
    rw [hnames.kept i hn hi ((haliases _).2 (by simp [hx])), hn]
    exact .name hi hx
  | literal hplace =>
    generalize k'.expression = n' at h
    cases h
    exact .literal hplace
  | expression hname hliteral hr =>
    refine .expression (fun i hi hsimple => ?_) (fun l hl => ?_) (hk m hr)
    · by_contra hsome
      rw [hnames.free i hi hsimple ((haliases _).2 hsome), hn] at hi
      exact hsome (hname i hi hsimple)
    · rw [hl] at h
      cases h
      exact hliteral l rfl

lemma resolveKeys_alike {keys keys' ks : List (SortKey Node)}
    (haliases : ∀ name, name ∈ aliases ↔ named.lookup name ≠ none)
    (h : List.Forall₂ (SortKey.Respells (Node.Respells Eq)) keys keys')
    (hnames : List.Forall₂ (SortKey.KeepsAliases aliases) keys keys')
    (hkeys : ∀ k ∈ keys, IgnoresCase c ts k.expression)
    (hks : resolveKeys c ts named count keys = .ok ks) :
    resolveKeys c ts named count keys' = .ok ks := by
  induction h generalizing ks with
  | nil => exact hks
  | cons h _ ih =>
    obtain ⟨descending, h⟩ := h
    obtain ⟨hk, hkeys⟩ := List.forall_mem_cons.1 hkeys
    obtain ⟨hname, hnames⟩ := List.forall₂_cons.1 hnames
    obtain ⟨m, rest, rfl, hm, hrest⟩ := resolveKeys_cases hks
    exact resolveKeys_cons descending (keyResolves_alike haliases h hname (hk _ h) hm)
      (ih hnames hkeys hrest)

end

/-! ### Queries -/

/-- A `FROM` clause that binds the same tables as another one, and resolves to whatever that does but
for the spelling of the tables. -/
def SourceResolvesAlike (c : Catalog) (T : TableRef → TableRef → Prop) (ts : Tables)
    (n n' : Node) : Prop :=
  ∀ ts' m, resolveSource c ts n = .ok (ts', m) →
    ∃ m', resolveSource c ts n' = .ok (ts', m') ∧ m.SourceRespells T Eq m'

/-- A tree in its place resolves to the same under every spelling. The tables of a `FROM` clause
keep the spelling they have. -/
def Category.IgnoresCase (c : Catalog) : Category → Node → Prop
  | .expression, n | .item, n => ∀ ts, GraphSelect.IgnoresCase c ts n
  | .tables, n => ∀ T : TableRef → TableRef → Prop, (∀ t t', T t t' → t.Respells t') →
    ∀ n', n.SourceRespells T (Node.Respells Eq) n' → ∀ ts, SourceResolvesAlike c T ts n n'
  | .query, n => ∀ q : Select, n = .select q → ∀ T : TableRef → TableRef → Prop,
    (∀ t t', T t t' → t.Respells t') → ∀ q', q.Respells T (Node.Respells Eq) q' → ∀ r,
      resolveSelect c q = .ok r →
      ∃ source', resolveSelect c q' = .ok { r with source := source' } ∧
        Option.Rel (Node.SourceRespells T Eq) r.source source'

section

variable {c : Catalog}

lemma ignoresCase_table (t : TableRef) : Category.IgnoresCase c .tables (.table t) := by
  intro T hT n' h ts ts' m hm
  obtain @⟨_, t', h⟩ := h
  obtain ⟨rfl, table, htable, hadd⟩ := resolveSource_table hm
  refine ⟨.table t', ?_, .table h⟩
  rw [resolveSource, Catalog.table_of_sameName (hT t t' h).name htable, Outcome.ok_bind,
    (hT t t' h).binding, hadd, Outcome.ok_bind]
  rfl

/-- Tables that nothing but their names tells apart are the same in a `FROM` clause that has been
resolved. -/
lemma eq_of_sourceRespells {n n' : Node} (h : n.SourceRespells Eq Eq n') : n' = n := by
  induction h with
  | table h => rw [h]
  | join kind _ _ hcondition ihl ihr => rw [ihl, ihr, optionRel_eq_iff.1 hcondition]

lemma eq_of_sourcesRespell {n n' : Option Node} (h : Option.Rel (Node.SourceRespells Eq Eq) n n') :
    n' = n := by
  cases h with
  | none => rfl
  | some h => rw [eq_of_sourceRespells h]

variable {T : TableRef → TableRef → Prop} {ts : Tables}

/-- A join resolves alike if its sides and its condition do. -/
lemma sourceResolvesAlike_join {left left' right right' : Node} {condition condition' : Option Node}
    (kind : JoinKind) (hleft : SourceResolvesAlike c T ts left left')
    (hright : ∀ ts, SourceResolvesAlike c T ts right right')
    (hcondition : Option.Rel (Node.Respells Eq) condition condition')
    (hignores : ∀ n ∈ condition, ∀ ts, IgnoresCase c ts n) :
    SourceResolvesAlike c T ts (.join left kind right condition)
      (.join left' kind right' condition') := by
  intro ts' m hm
  obtain ⟨l, r, x, ts₁, rfl, hl, hr, hx⟩ := resolveSource_join hm
  obtain ⟨l', hl', hleft⟩ := hleft ts₁ l hl
  obtain ⟨r', hr', hright⟩ := hright ts₁ ts' r hr
  have hx' := resolveOption_alike hcondition (fun n hn => hignores n hn ts') hx
  exact ⟨.join l' kind r' x, by simp [resolveSource, hl', hr', hx'],
    .join kind hleft hright (optionRel_eq_iff.2 rfl)⟩

/-- The names of select items stay when a query is resolved. -/
lemma aliases_of_resolveSelect {q r : Select} (h : resolveSelect c q = .ok r) :
    r.aliases = q.aliases := by
  obtain ⟨ts, hts⟩ := resolveSelect_eq_ok h
  rw [← aliases_expand hts, Select.expand_aliases]

lemma exists_resolveTables {source source' m : Option Node}
    (h : Option.Rel (Node.SourceRespells T (Node.Respells Eq)) source source')
    (hm : resolveTables c source = .ok (ts, m))
    (hsource : ∀ n ∈ source, ∀ n', n.SourceRespells T (Node.Respells Eq) n' →
      SourceResolvesAlike c T [] n n') :
    ∃ m', resolveTables c source' = .ok (ts, m') ∧ Option.Rel (Node.SourceRespells T Eq) m m' := by
  cases h with
  | none =>
    cases hm
    exact ⟨none, rfl, .none⟩
  | some h =>
    obtain ⟨⟨ts, n⟩, hn, hm⟩ := Outcome.map_eq_ok.1 hm
    cases hm
    obtain ⟨n', hn', hrel⟩ := hsource _ rfl _ h ts n hn
    exact ⟨some n', by rw [resolveTables, hn', Outcome.map_ok], .some hrel⟩

/-- A tree that some text denotes resolves to the same under every spelling. -/
theorem ignoresCase_of_isWritten {k : Category} {n : Node} (h : n.IsWritten k) :
    k.IgnoresCase c n := by
  induction h with
  | column =>
    intro ts n' h m hm
    cases h with
    | identifier h =>
      obtain ⟨j, hj, rfl⟩ := Outcome.map_eq_ok.1 hm
      exact resolve_identifier (Tables.identifier_respells h hj)
  | literal =>
    intro ts n' h m hm
    cases h
    exact hm
  | infixed hf _ _ ihx ihy =>
    obtain ⟨hquery, hname, -⟩ := Operator.ne_of_affix (.inl hf)
    exact fun ts => ignoresCase_call hquery hname (by simpa using ⟨ihx ts, ihy ts⟩)
  | prefixed hf _ ih =>
    obtain ⟨hquery, hname, -⟩ := Operator.ne_of_affix (.inr (.inl hf))
    exact fun ts => ignoresCase_call hquery hname (by simpa using ih ts)
  | test hf _ ih =>
    obtain ⟨hquery, hname, -⟩ := Operator.ne_of_affix (.inr (.inr hf))
    exact fun ts => ignoresCase_call hquery hname (by simpa using ih ts)
  | function name hf _ ih =>
    obtain ⟨hquery, hname, -⟩ := hf ▸ Operator.ofFunctionName_ne name
    exact fun ts => ignoresCase_call hquery hname fun x hx => ih x hx ts
  | cast hf _ t ih =>
    intro ts
    have htype : IgnoresCase c ts (.typeSpec t) := by
      rintro _ ⟨⟩
      exact fun _ => id
    exact ignoresCase_call (by simp [hf]) (by simp [hf]) (by simpa using ⟨ih ts, htype⟩)
  | @within f x xs hf _ _ ihx ih =>
    intro ts
    have hlist : IgnoresCase c ts (.list xs) := ignoresCase_list fun x hx => ih x hx ts
    exact ignoresCase_call (by simp [hf]) (by simp [hf]) (by simpa using ⟨ihx ts, hlist⟩)
  | @scalarQuery f q hf _ ih =>
    intro ts n' h m hm
    obtain ⟨ns', rfl, hns⟩ := h.of_call (by simp [hf])
    obtain _ | ⟨hq, _ | _⟩ := hns
    obtain _ | _ | _ | _ | _ | _ | @⟨_, q', hq⟩ := hq
    simp only [resolve, hf] at hm ⊢
    obtain ⟨r, hr, hm⟩ := Outcome.bind_eq_ok.1 hm
    obtain ⟨source', hr', hsource⟩ := ih q rfl Eq TableRef.respells_of_eq q' hq r hr
    -- The tables of the sub-query are spelled as before, so nothing tells the two apart.
    rw [eq_of_sourcesRespell hsource] at hr'
    rw [hr']
    exact hm
  | item _ ih => exact ih
  | @named f x hf _ name ih =>
    intro ts n' h m hm
    cases h with
    | call hname => exact absurd hf hname
    | named _ h =>
      simp only [resolve, hf] at hm ⊢
      obtain ⟨y, hy, hm⟩ := Outcome.bind_eq_ok.1 hm
      rw [ih ts _ h y hy]
      exact hm
  | table t => exact ignoresCase_table t
  | join _ kind t ih =>
    intro T hT n' h ts
    cases h with
    | join _ hleft hright hcondition =>
      exact sourceResolvesAlike_join kind (ih T hT _ hleft ts)
        (ignoresCase_table t T hT _ hright) hcondition (by simp)
  | joinOn _ kind t _ ihx ihy =>
    intro T hT n' h ts
    cases h with
    | join _ hleft hright hcondition =>
      exact sourceResolvesAlike_join kind (ihx T hT _ hleft ts)
        (ignoresCase_table t T hT _ hright) hcondition (by simpa using fun ts => ihy ts)
  | @query q _ _ _ _ _ _ ihItems ihSource ihFilter ihGroupBy ihHaving ihOrderBy =>
    rintro _ ⟨⟩ T hT q' h r hr
    have haliases := aliases_of_resolveSelect hr
    rw [resolveSelect_eq] at hr ⊢
    obtain ⟨⟨ts, source⟩, hsource, hr⟩ := Outcome.bind_eq_ok.1 hr
    obtain ⟨_, hstars, hr⟩ := Outcome.bind_eq_ok.1 hr
    obtain ⟨items, hitems, hr⟩ := Outcome.bind_eq_ok.1 hr
    obtain ⟨filter, hfilter, hr⟩ := Outcome.bind_eq_ok.1 hr
    obtain ⟨groupBy, hgroupBy, hr⟩ := Outcome.bind_eq_ok.1 hr
    obtain ⟨having, hhaving, hr⟩ := Outcome.bind_eq_ok.1 hr
    obtain ⟨named, hnamed, hr⟩ := Outcome.bind_eq_ok.1 hr
    obtain ⟨orderBy, horderBy, hr⟩ := Outcome.bind_eq_ok.1 hr
    cases hr
    -- An ordering is looked up among resolved items, which have the names of the items as written.
    have hnames' (name : String) : name ∈ q.aliases ↔ named.lookup name ≠ none := by
      rw [← haliases]
      exact mem_aliases hnamed name
    cases h with
    | mk distinct hitems' hsource' hfilter' hgroupBy' hhaving' hkeys hnames limit offset =>
      dsimp only at *
      obtain ⟨source', hsource', hrel⟩ := exists_resolveTables hsource' hsource
        fun n hn n' h => ihSource n hn T hT n' h []
      refine ⟨source', ?_, hrel⟩
      have hitems := resolveItems_alike hitems' (fun n hn => ihItems n hn ts) hitems
      have hfilter := resolveOption_alike hfilter' (fun n hn => ihFilter n hn ts) hfilter
      have hgroupBy := resolveEach_alike (forall₂_resolvesAlike hgroupBy'
        fun n hn => ihGroupBy n hn ts) hgroupBy
      have hhaving := resolveOption_alike hhaving' (fun n hn => ihHaving n hn ts) hhaving
      have horderBy := resolveKeys_alike hnames' hkeys hnames
        (fun k hk => ihOrderBy k hk ts) horderBy
      simp [hsource', checkStars_respells hitems', hstars, hitems, hfilter, hgroupBy, hhaving,
        hnamed, horderBy]

end

/-! ### Plans -/

section

variable {s : Scope} {r : Scope × Steps}

lemma tableSteps_respells {t t' : TableRef} (h : t.Respells t') (hr : tableSteps s t = .ok r) :
    tableSteps s t' = .ok r := by
  obtain ⟨table, htable, hr⟩ := Outcome.bind_eq_ok.1 hr
  rw [tableSteps, Catalog.table_of_sameName h.name htable, h.binding]
  exact hr

lemma joinSteps_respells {t t' : TableRef} {condition : Option Node} (h : t.Respells t')
    (hr : joinSteps s t condition = .ok r) : joinSteps s t' condition = .ok r := by
  obtain ⟨table, htable, hr⟩ := Outcome.bind_eq_ok.1 hr
  rw [joinSteps, Catalog.table_of_sameName h.name htable, h.binding]
  exact hr

/-- The steps of a `FROM` clause do not depend on the spelling of its tables. -/
lemma sourceSteps_respells {n n' : Node} (h : n.SourceRespells TableRef.Respells Eq n')
    (hr : sourceSteps s n = .ok r) : sourceSteps s n' = .ok r := by
  induction h generalizing r with
  | table h => exact tableSteps_respells h hr
  | @join left left' right right' condition condition' kind _ hright hcondition ihl ihr =>
    obtain rfl := optionRel_eq_iff.1 hcondition
    cases kind with
    | inner =>
      cases hright with
      | table h =>
        obtain ⟨⟨s₁, before⟩, hbefore, hr⟩ := Outcome.bind_eq_ok.1 hr
        obtain ⟨⟨s₂, after⟩, hafter, hr⟩ := Outcome.bind_eq_ok.1 hr
        cases hr
        simp [sourceSteps, ihl hbefore, joinSteps_respells h hafter]
      | join => simp [sourceSteps] at hr
    | _ => simp [sourceSteps] at hr

/-- A query has the same plan from any tables that are bound by the same steps. -/
lemma plan_respells {c : Catalog} {source : Option String} {maxRows : Option Int} {q : Select}
    {tables' : Option Node} {p : Plan}
    (h : Option.Rel (Node.SourceRespells TableRef.Respells Eq) q.source tables')
    (hp : plan c source maxRows q = .ok p) :
    plan c source maxRows { q with source := tables' } = .ok p := by
  obtain ⟨x, hx, -⟩ := plan_eq_ok hp
  obtain ⟨n, hn, hsteps⟩ := hx.source
  rw [hn] at h
  obtain @⟨_, n', h⟩ := h
  have hsteps' := sourceSteps_respells h hsteps
  rw [← hp]
  simp only [plan, hn, hsteps, hsteps']
  rfl

end

/-- **Upper and lower case of names do not matter**: a query that converts has the same plan when its
columns, and the tables of its `FROM` clause, are spelled in another case. The names that tables are
bound to and the names of select items keep their spelling, and so do the tables of sub-queries. -/
theorem converts_respelled {x : Converter} {text : String} {p : Plan} {q q' : Select}
    (hp : x.convert text = .ok p) (hq : Parser.parse text = .ok q)
    (h : q.Respells TableRef.Respells (Node.Respells Eq) q') :
    (x.resolve q').bind x.plan = .ok p := by
  obtain ⟨q₀, r, hq₀, hr, hp⟩ := Converter.convert_eq_ok hp
  obtain rfl : q = q₀ := Except.ok.inj (hq.symm.trans hq₀)
  obtain ⟨source', hr', hsource⟩ := ignoresCase_of_isWritten (Parser.isWritten_of_parse hq) q rfl
    TableRef.Respells (fun _ _ => id) q' h r hr
  exact Outcome.bind_eq_ok.2 ⟨_, hr', plan_respells hsource hp⟩

/-! ### Two queries -/

namespace People

/-- The ages of neighbours, by the spellings of the tables and of their columns. -/
def neighbourAges (table name age : String) : Select :=
  { Select.empty with
    items := [.named (Parser.column ["q", age]) "a"]
    source := some (.join (.table ⟨table, some "p"⟩) .inner (.table ⟨table, some "q"⟩)
      (some (.apply (.comparison .equal) [Parser.column ["p", name], Parser.column ["q", name]])))
    orderBy := [⟨Parser.column ["a"], false⟩, ⟨Parser.column ["q", age], false⟩] }

def neighbourText : String :=
  "SELECT q.age a FROM person p JOIN person q ON p.name = q.name ORDER BY a, q.age"

lemma parse_neighbourText :
    Parser.parse neighbourText = .ok (neighbourAges "person" "name" "age") := rfl

lemma respells_neighbourAges {table table' name name' age age' : String}
    (htable : sameName table table' = true) (hname : sameName name name' = true)
    (hage : sameName age age' = true) :
    (neighbourAges table name age).Respells TableRef.Respells (Node.Respells Eq)
      (neighbourAges table' name' age') := by
  have hcolumn (label : String) {column column' : String} (h : sameName column column' = true) :
      (Parser.column [label, column]).Respells Eq (Parser.column [label, column']) :=
    .identifier (.mk [label] none h)
  have hkey : (Parser.column ["a"]).Respells Eq (Parser.column ["a"]) :=
    .identifier (.mk [] none (sameName_self "a"))
  have htables {label : String} (hlabel : label ≠ "") :
      Node.SourceRespells TableRef.Respells (Node.Respells Eq)
        (.table ⟨table, some label⟩) (.table ⟨table', some label⟩) :=
    .table (TableRef.respells_of_asName htable hlabel)
  refine .mk false (.cons (.named rfl (hcolumn "q" hage) _) .nil)
    (.some (.join .inner (htables (by decide)) (htables (by decide))
      (.some (.call (by decide) (.cons (hcolumn "p" hname) (.cons (hcolumn "q" hname) .nil))))))
    .none .nil .none (.cons (.mk false hkey) (.cons (.mk false (hcolumn "q" hage)) .nil))
    (.cons ⟨fun _ _ _ _ => rfl, fun _ _ _ _ => rfl⟩ (.cons ⟨?_, ?_⟩ .nil)) none none
  · rintro _ ⟨⟩ h
    cases h
  · rintro _ ⟨⟩ h
    cases h

theorem converts_neighbourAges : ∃ p, converter.convert neighbourText = .ok p ∧
    Parser.parse neighbourText = .ok (neighbourAges "person" "name" "age") ∧
    (neighbourAges "person" "name" "age").Respells TableRef.Respells (Node.Respells Eq)
      (neighbourAges "PERSON" "Name" "aGe") ∧
    (converter.resolve (neighbourAges "PERSON" "Name" "aGe")).bind converter.plan = .ok p := by
  obtain ⟨p, hp⟩ := Converter.exists_of_isOk
    (show (converter.convert neighbourText).isOk by decide +kernel)
  have hrespells := respells_neighbourAges (show sameName "person" "PERSON" = true by decide +kernel)
    (show sameName "name" "Name" = true by decide +kernel)
    (show sameName "age" "aGe" = true by decide +kernel)
  exact ⟨p, hp, parse_neighbourText, hrespells, converts_respelled hp parse_neighbourText hrespells⟩

end People

namespace Nested

/-- A table with a property that is named like a comparison with a sub-query. -/
def catalog : Catalog where
  tables :=
    [⟨"t", "t", [⟨"a", "a", .integer⟩, ⟨"w", "a = (SELECT s.a FROM t AS s)", .integer⟩], .vertex⟩]
  edges := []

def converter : Converter := ⟨catalog, some "g", none⟩

/-- The comparison with the sub-query, by the spelling of its table. -/
def comparison (table : String) : Select :=
  { Select.empty with
    items := [.named (.apply (.comparison .equal) [Parser.column ["p", "a"],
      .apply .scalarQuery [.select { Select.empty with
        items := [Parser.column ["a"]]
        source := some (.table ⟨table, some "s"⟩) }]]) "c"]
    source := some (.table ⟨"t", some "p"⟩)
    groupBy := [Parser.column ["w"]] }

def comparisonText : String := "SELECT p.a = (SELECT a FROM t AS s) AS c FROM t AS p GROUP BY w"

/-- With the table of the sub-query spelled as `T` the comparison no longer reads as the name of the
group key, and the query has no plan. -/
theorem not_converts_upperTable : ∃ p, converter.convert comparisonText = .ok p ∧
    Parser.parse comparisonText = .ok (comparison "t") ∧
    (comparison "t").Respells TableRef.Respells (Node.Respells TableRef.Respells)
      (comparison "T") ∧
    (converter.resolve (comparison "T")).bind converter.plan =
      .error (.fault ((Fault.columnNotGrouped "p.a").within "SELECT")) := by
  obtain ⟨p, hp⟩ := Converter.exists_of_isOk
    (show (converter.convert comparisonText).isOk by decide +kernel)
  have hcolumn (names : List String) (name : String) :
      Node.Respells TableRef.Respells (Parser.column (names ++ [name]))
        (Parser.column (names ++ [name])) :=
    .identifier (.mk names none (sameName_self name))
  have htable : (TableRef.mk "t" (some "s")).Respells ⟨"T", some "s"⟩ :=
    TableRef.respells_of_asName (by decide +kernel) (by decide)
  have hquery : Node.Respells TableRef.Respells
      (.select { Select.empty with
        items := [Parser.column ["a"]]
        source := some (.table ⟨"t", some "s"⟩) })
      (.select { Select.empty with
        items := [Parser.column ["a"]]
        source := some (.table ⟨"T", some "s"⟩) }) :=
    .select (.mk false (.cons (hcolumn [] "a") .nil) (.some (.table htable)) .none .nil .none .nil
      .nil none none)
  exact ⟨p, hp, rfl, .mk false (.cons (.named rfl (.call (by decide) (.cons (hcolumn ["p"] "a")
      (.cons (.call (by decide) (.cons hquery .nil)) .nil))) _) .nil)
    (.some (.table (TableRef.respells_of_eq _ _ rfl))) .none (.cons (hcolumn [] "w") .nil) .none
    .nil .nil none none, rfl⟩

end Nested

end GraphSelect
