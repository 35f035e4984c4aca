import GraphSelect.Proofs.Rereading

/-!
Parsing printed expressions.

The clauses of a select are printed in the order in which they are read, so what holds of
expressions holds of queries inside them too: the text of an expression that the parser builds is
parsed as this expression, unless a `NOT` in it has lost its brackets.
-/

namespace GraphSelect

namespace Parser

open Node (IsParsed children)

variable {s s' : State} {t : Token} {ts : List Token} {x y e : Node} {f : Frame}
  {fs rest : List Frame} {o : Opening} {q : Select}

/-! ### Entries of clauses -/

open Terminal in
/-- The terminals that may follow an entry of a clause as it is printed. -/
def Clause.follows : Clause → List Terminal
  | .items => [sign .closing, sign .comma, keyword .from, keyword .where, keyword .group,
      keyword .having, keyword .order, keyword .limit, keyword .offset]
  | .source => [sign .closing, sign .comma, keyword .join, keyword .inner, keyword .left,
      keyword .right, keyword .full, keyword .cross, keyword .where, keyword .group,
      keyword .having, keyword .order, keyword .limit, keyword .offset]
  | .filter => [sign .closing, keyword .group, keyword .having, keyword .order, keyword .limit,
      keyword .offset]
  | .groupBy => [sign .closing, sign .comma, keyword .having, keyword .order, keyword .limit,
      keyword .offset]
  | .having => [sign .closing, keyword .order, keyword .limit, keyword .offset]
  | .orderBy => [sign .closing, sign .comma, keyword .limit, keyword .offset]
  | .limit => [sign .closing, keyword .offset]
  | .offset => [sign .closing]

/-- A state that is a select with a complete last entry, also for the token that follows it. -/
structure Rests (s : State) (σ : Settled) : Prop where
  settled : s.settled? = some σ
  advance_eq (t : Token) (ht : t.terminal ∈ σ.clause.follows) : advance s t = settledStep σ t

variable {c next : Clause} {k : Keyword}

lemma mem_entryEnders_of_mem_follows {terminal : Terminal} (h : terminal ∈ c.follows) :
    terminal ∈ entryEnders := by
  have hall : ∀ c : Clause, ∀ terminal ∈ c.follows, terminal ∈ entryEnders := by
    rintro (_ | _ | _ | _ | _ | _ | _ | _) <;> decide
  exact hall c terminal h

/-- Behind an entry of a clause, what ends it is taken by the select. -/
lemma expressionEnd_of_settle? {σ : Settled} (hσ : settle? e fs = some σ)
    (ht : t.terminal ∈ entryEnders) : expressionEnd e fs t = settledStep σ t := by
  obtain ⟨terminal, text⟩ := t
  unfold settle? at hσ
  split at hσ <;> cases hσ <;>
    simp only [entryEnders, List.mem_cons, List.not_mem_nil, or_false] at ht <;>
    rcases ht with rfl | rfl | rfl | rfl | rfl | rfl | rfl | rfl | rfl | rfl | rfl | rfl | rfl |
      rfl | rfl <;> rfl

lemma rests_ended {e : Ending} (he : ∀ terminal ∈ c.follows, terminal ∈ e.expected) :
    Rests ⟨.ended e, .query q c :: rest⟩ ⟨q, c, rest⟩ where
  settled := rfl
  advance_eq t ht := by
    rw [advance, if_pos (show t.terminal ∈ (Phase.ended e).expected from he _ ht)]
    rfl

/-- An expression in a clause is a complete entry of it. -/
lemma Ready.rests {σ : Settled} (h : Ready s e fs) (hfs : IsOpen fs)
    (hσ : settle? e fs = some σ) : Rests s σ where
  settled := by
    obtain ⟨y, tail, fs', rfl, hreduce⟩ := h
    simp [State.settled?, hreduce, hσ]
  advance_eq t ht := by
    have hender := mem_entryEnders_of_mem_follows ht
    have hmem : t.terminal ∈ enders := by simp [enders, hender]
    rw [h.advance_eq hfs hmem, expressionEnd_of_settle? hσ hender]

lemma ReadsExpression.rests {σ : Settled} (h : ReadsExpression x) (ho : o ≠ .strict)
    (hfs : IsOpen fs) (hσ : settle? x fs = some σ) :
    ∃ s, run ⟨.operand o, fs⟩ x.tokens = .ok s ∧ Rests s σ := by
  obtain ⟨s, hrun, hready⟩ := h o fs ho hfs
  exact ⟨s, hrun, hready.rests hfs hσ⟩

/-- Where a select item may begin. -/
def itemOpenings : List Opening := [.select, .distinct, .item]

/-- Whether a printed select item is read as it is. -/
def ReadsItem (x : Node) : Prop :=
  ∀ o ∈ itemOpenings, ∀ q rest, ∃ s, run ⟨.operand o, .query q .items :: rest⟩ x.tokens = .ok s ∧
    Rests s ⟨addItem q x, .items, rest⟩

lemma ne_strict_of_mem_itemOpenings (ho : o ∈ itemOpenings) : o ≠ .strict := by
  rintro rfl
  exact absurd ho (by decide)

lemma ReadsExpression.item (h : ReadsExpression x) : ReadsItem x := fun _ ho _ _ =>
  h.rests (ne_strict_of_mem_itemOpenings ho) (isOpen_cons rfl) rfl

lemma readsItem_star : ReadsItem star := by
  intro o ho q rest
  have hmem : Token.terminal (.ofSign .star) ∈ (Phase.operand o).expected := by
    have hall : ∀ o ∈ itemOpenings, Terminal.sign .star ∈ (Phase.operand o).expected := by decide
    exact hall o ho
  refine ⟨_, ?_, rests_ended (e := .star) (by decide)⟩
  have htokens : star.tokens = [.ofSign .star] := by
    simp [star, Node.tokens, Identifier.tokens, nameToken_star]
  rw [htokens]
  refine run_step hmem ?_
  simp only [itemOpenings, List.mem_cons, List.not_mem_nil, or_false] at ho
  rcases ho with rfl | rfl | rfl <;> rfl

lemma readsItem_allOf {name : String} (hname : isPlainWord name.toList = true) :
    ReadsItem (column [name, "*"]) := by
  intro o ho q rest
  refine ⟨_, ?_, rests_ended (e := .star) (by decide)⟩
  have htokens : (column [name, "*"]).tokens = [.word name, .ofSign .dot, .ofSign .star] := by
    simp [column, Node.tokens, Identifier.tokens, nameToken_of_isPlainWord hname, nameToken_star]
  have hdot : run ⟨.value (column [name]) .name, .query q .items :: rest⟩
      [.ofSign .dot, .ofSign .star] = run ⟨.qualifier name true, .query q .items :: rest⟩
        [.ofSign .star] :=
    run_step (by simp [Phase.expected, Tail.expected, nameFollows, Token.ofSign]) rfl
  rw [htokens, run_word, hdot]
  exact run_step (by simp [Phase.expected, Token.ofSign]) rfl

lemma readsItem_named (hx : ReadsOperand x) {name : String}
    (hname : isPlainWord name.toList = true) : ReadsItem (.named x name) := by
  intro o ho q rest
  have hopen : IsOpen (.query q .items :: rest) := isOpen_cons rfl
  obtain ⟨s, hrun, hready⟩ := hx.ready (ne_strict_of_mem_itemOpenings ho) hopen
  have htokens : (Node.named x name).tokens = x.nested ++ [.ofKeyword .as, .word name] := by
    rw [Node.named, Node.apply, Node.tokens_rename rfl]
    simp [Identifier.tokens, nameToken_of_isPlainWord hname]
  refine ⟨_, ?_, rests_ended (e := .name) (by decide)⟩
  rw [htokens, run_append hrun, hready.run_cons hopen (by decide) rfl]
  exact run_step (show Terminal.name ∈ anyName by decide) (by simp [step, Token.word, name?, go])

/-! ### Tables -/

/-- Whether printed tables are read as they are. -/
def ReadsTables (x : Node) : Prop :=
  ∀ q rest, ∃ s, run ⟨.tableName none, .query q .source :: rest⟩ x.tokens = .ok s ∧
    Rests s ⟨{ q with source := some x }, .source, rest⟩

lemma run_table {t : TableRef} (ht : t.HasPlainNames) (joining : Option Joining) :
    run ⟨.tableName joining, fs⟩ (t.tokens ++ ts) = run ⟨.tableRead joining t, fs⟩ ts := by
  obtain ⟨name, asName⟩ := t
  have hname (ts : List Token) : run ⟨.tableName joining, fs⟩ (.word name :: ts) =
      run ⟨.tableRead joining ⟨name, none⟩, fs⟩ ts :=
    run_step (show Terminal.name ∈ anyName by decide) (by simp [step, Token.word, name?, go])
  unfold TableRef.tokens
  rw [ht.asName?_eq]
  cases asName with
  | none => exact hname ts
  | some a =>
    have has (ts : List Token) : run ⟨.tableRead joining ⟨name, none⟩, fs⟩ (.ofKeyword .as :: ts) =
        run ⟨.tableAlias joining ⟨name, none⟩, fs⟩ ts :=
      run_step (by simp [Phase.expected, nameFollows, operandFollows, expressionFollows,
        Token.ofKeyword]) rfl
    refine (hname _).trans ((has _).trans ?_)
    exact run_step (show Terminal.name ∈ anyName by decide) (by simp [step, Token.word, name?, go])

lemma rests_table (joining : Option Joining) (t : TableRef) :
    Rests ⟨.tableRead joining t, .query q .source :: rest⟩
      ⟨{ q with source := some (joined joining t) }, .source, rest⟩ where
  settled := rfl
  advance_eq t' ht' := by
    have hmem : t'.terminal ∈ (Phase.tableRead joining t).expected := by
      have hall : ∀ terminal ∈ Clause.source.follows, terminal ∈ nameFollows := by decide
      exact hall _ ht'
    rw [advance, if_pos hmem]
    obtain ⟨terminal, text⟩ := t'
    obtain ⟨name, asName⟩ := t
    simp only [Clause.follows, List.mem_cons, List.not_mem_nil, or_false] at ht'
    rcases ht' with rfl | rfl | rfl | rfl | rfl | rfl | rfl | rfl | rfl | rfl | rfl | rfl | rfl |
      rfl <;> cases asName <;> rfl

lemma readsTables_table {t : TableRef} (ht : t.HasPlainNames) : ReadsTables (.table t) := by
  intro q rest
  refine ⟨_, ?_, rests_table none t⟩
  have hrun : run ⟨.tableName none, .query q .source :: rest⟩ (t.tokens ++ []) = _ :=
    run_table ht none
  rw [List.append_nil] at hrun
  rw [Node.tokens, hrun, run_nil]

lemma Rests.run_cons (h : Rests s ⟨q, c, rest⟩) (ht : t.terminal ∈ c.follows)
    (hstep : settledStep ⟨q, c, rest⟩ t = .ok s') : run s (t :: ts) = run s' ts :=
  Parser.run_cons ((h.advance_eq t ht).trans hstep)

/-- What joins a table to those before it. -/
lemma run_joinKind (hs : Rests s ⟨q, .source, rest⟩) (hq : q.source = some x) (kind : JoinKind) :
    run s (kind.tokens ++ ts) = run ⟨.tableName (some ⟨x, kind⟩), .query q .source :: rest⟩ ts := by
  have hjoin (outer : Bool) :
      run ⟨.joinWord x kind outer, .query q .source :: rest⟩ (.ofKeyword .join :: ts) =
        run ⟨.tableName (some ⟨x, kind⟩), .query q .source :: rest⟩ ts := by
    refine run_step ?_ ?_ <;> cases outer
    · simp [Phase.expected, Token.ofKeyword]
    · simp [Phase.expected, Token.ofKeyword]
    · rfl
    · rfl
  have hword {k : Keyword} {outer : Bool} (hk : joinWord? k = some (kind, outer)) :
      run s (.ofKeyword k :: .ofKeyword .join :: ts) =
        run ⟨.tableName (some ⟨x, kind⟩), .query q .source :: rest⟩ ts := by
    have hmem : Terminal.keyword k ∈ Clause.source.follows := by
      cases k <;> cases hk <;> decide
    have hstep : settledStep ⟨q, .source, rest⟩ (.ofKeyword k) =
        .ok ⟨.joinWord x kind outer, .query q .source :: rest⟩ := by
      cases k <;> cases hk <;> simp [settledStep, Token.ofKeyword, hq, joinWord?, go]
    rw [hs.run_cons hmem hstep, hjoin]
  cases kind with
  | comma => exact hs.run_cons (by decide) (by simp [settledStep, Token.ofSign, hq, go])
  | inner | cross | left | right | full => exact hword rfl

lemma run_join (hx : ReadsTables x) (kind : JoinKind) {t : TableRef} (ht : t.HasPlainNames)
    (q : Select) (rest : List Frame) (ts : List Token) :
    run ⟨.tableName none, .query q .source :: rest⟩
      (x.tokens ++ (kind.tokens ++ (t.tokens ++ ts))) =
        run ⟨.tableRead (some ⟨x, kind⟩) t,
          .query { q with source := some x } .source :: rest⟩ ts := by
  obtain ⟨s, hrun, hrests⟩ := hx q rest
  rw [run_append hrun, run_joinKind hrests rfl, run_table ht]

lemma readsTables_join (hx : ReadsTables x) (kind : JoinKind) {t : TableRef}
    (ht : t.HasPlainNames) : ReadsTables (.join x kind (.table t) none) := by
  intro q rest
  have htokens : (Node.join x kind (.table t) none).tokens =
      x.tokens ++ (kind.tokens ++ (t.tokens ++ [])) := by
    have htable : (Node.table t).tokens = t.tokens := by rw [Node.tokens]
    by_cases hkind : kind = .comma
    · rw [hkind, Node.tokens_comma, htable, List.append_nil]
      rfl
    · rw [Node.tokens_join _ _ hkind, htable]
      rfl
  refine ⟨_, by rw [htokens, run_join hx kind ht, run_nil], ?_⟩
  exact rests_table (q := { q with source := some x }) (some ⟨x, kind⟩) t

lemma readsTables_joinOn (hx : ReadsTables x) {kind : JoinKind} (hkind : kind ≠ .comma)
    {t : TableRef} (ht : t.HasPlainNames) (hy : ReadsExpression y) :
    ReadsTables (.join x kind (.table t) (some y)) := by
  intro q rest
  have htokens : (Node.join x kind (.table t) (some y)).tokens =
      x.tokens ++ (kind.tokens ++ (t.tokens ++ .ofKeyword .on :: y.tokens)) := by
    have htable : (Node.table t).tokens = t.tokens := by rw [Node.tokens]
    rw [Node.tokens_join _ _ hkind, htable]
    rfl
  have hcondition : Opening.condition ≠ .strict := by decide
  have hopen : IsOpen (.joinOn x kind t :: .query { q with source := some x } .source :: rest) :=
    isOpen_cons rfl
  obtain ⟨s, hrun, hrests⟩ := hy.rests hcondition hopen rfl
  refine ⟨s, ?_, hrests⟩
  rw [htokens, run_join hx kind ht, ← hrun]
  refine run_step (by simp [Phase.expected, nameFollows, Token.ofKeyword]) ?_
  simp [step, tableStep, Token.ofKeyword, name?, hkind, go]

/-! ### Clauses -/

/-- Whether a clause, printed as some tokens or left out, makes one select of another. -/
def ReadsClause (next : Clause) (q : Select) (ts : List Token) (q' : Select) : Prop :=
  ∀ s c rest, Rests s ⟨q, c, rest⟩ → c.rank < next.rank →
    ∃ s' c', run s ts = .ok s' ∧ Rests s' ⟨q', c', rest⟩ ∧ c'.rank ≤ next.rank

variable {q' : Select} {p : Phase} {α : Type}

lemma readsClause_nil : ReadsClause next q [] q :=
  fun s c _ hs hc => ⟨s, c, rfl, hs, hc.le⟩

lemma readsClause_cons (hk : clauseWord? k = some (next, p))
    (h : ∀ rest, ∃ s, run ⟨p, .query q next :: rest⟩ ts = .ok s ∧ Rests s ⟨q', next, rest⟩) :
    ReadsClause next q (.ofKeyword k :: ts) q' := by
  intro s c rest hs hc
  have hmem : Terminal.keyword k ∈ c.follows := by
    cases k <;> cases hk <;> cases c <;> first | decide | exact absurd hc (by decide)
  have hstep : settledStep ⟨q, c, rest⟩ (.ofKeyword k) = .ok ⟨p, .query q next :: rest⟩ := by
    cases k <;> cases hk <;> simp [settledStep, Token.ofKeyword, joinWord?, clauseWord?, hc, go]
  obtain ⟨s', hrun, hrests⟩ := h rest
  exact ⟨s', next, (hs.run_cons hmem hstep).trans hrun, hrests, le_rfl⟩

/-- A clause of one entry, if it is there. -/
lemma readsClause_option {toks : α → List Token} (update : Option α → Select)
    (hq : update none = q) (hk : clauseWord? k = some (next, p)) {value : Option α}
    (h : ∀ x ∈ value, ∀ rest, ∃ s, run ⟨p, .query q next :: rest⟩ (toks x) = .ok s ∧
      Rests s ⟨update (some x), next, rest⟩) :
    ReadsClause next q (clauseTokens [k] (value.map toks)) (update value) := by
  cases value with
  | none =>
    rw [hq]
    exact readsClause_nil
  | some x => exact readsClause_cons hk (h x rfl)

/-- The entries of a clause are added one after the other. -/
lemma exists_run_entries {toks : α → List Token} (add : Select → α → Select)
    (openings : List Opening) {xs : List α} (hentry : ∀ x ∈ xs, ∀ o ∈ openings, ∀ q,
      ∃ s, run ⟨.operand o, .query q c :: rest⟩ (toks x) = .ok s ∧ Rests s ⟨add q x, c, rest⟩)
    (hc : .sign .comma ∈ c.follows) {o' : Opening} (ho' : o' ∈ openings)
    (hcomma : ∀ q, settledStep ⟨q, c, rest⟩ (.ofSign .comma) =
      go (.operand o') (.query q c :: rest)) (hne : xs ≠ []) (ho : o ∈ openings) (q : Select) :
    ∃ s, run ⟨.operand o, .query q c :: rest⟩ (listed (xs.map toks)) = .ok s ∧
      Rests s ⟨xs.foldl add q, c, rest⟩ := by
  let Begins (read : List α) (s : State) : Prop :=
    ∃ o ∈ openings, s = ⟨.operand o, .query (read.foldl add q) c :: rest⟩
  let Ends (read : List α) (s : State) : Prop := Rests s ⟨read.foldl add q, c, rest⟩
  have hentry' : ∀ x ∈ xs, ∀ read s, Begins read s →
      ∃ s', run s (toks x) = .ok s' ∧ Ends (read ++ [x]) s' := by
    rintro x hx read _ ⟨o, ho, rfl⟩
    obtain ⟨s, hrun, hrests⟩ := hentry x hx o ho (read.foldl add q)
    exact ⟨s, hrun, by simpa [Ends] using hrests⟩
  have hnext : ∀ read s, Ends read s →
      ∃ s', advance s (.ofSign .comma) = .ok s' ∧ Begins read s' :=
    fun read s hrests => ⟨_, (hrests.advance_eq _ hc).trans (hcomma _), o', ho', rfl⟩
  exact exists_run_listed hentry' hnext hne (show Begins [] _ from ⟨o, ho, rfl⟩)

/-- A clause of several conditions or keys behind `BY`, if it has any. -/
lemma readsClause_by {toks : α → List Token} (add : Select → α → Select) {xs : List α}
    (hk : clauseWord? k = some (next, .by next))
    (hentry : ∀ x ∈ xs, ∀ q rest, ∃ s,
      run ⟨.operand .condition, .query q next :: rest⟩ (toks x) = .ok s ∧
        Rests s ⟨add q x, next, rest⟩) :
    ReadsClause next q (clausesTokens [k, .by] (xs.map toks)) (xs.foldl add q) := by
  cases xs with
  | nil => exact readsClause_nil
  | cons x xs =>
    refine readsClause_cons hk fun rest => ?_
    have hnext : next = .groupBy ∨ next = .orderBy := by
      cases k <;> cases hk <;> simp
    have hfollows : .sign .comma ∈ next.follows := by
      rcases hnext with rfl | rfl <;> decide
    have hcomma (q : Select) : settledStep ⟨q, next, rest⟩ (.ofSign .comma) =
        go (.operand .condition) (.query q next :: rest) := by
      rcases hnext with rfl | rfl <;> rfl
    have hentry' : ∀ y ∈ x :: xs, ∀ o ∈ [Opening.condition], ∀ q, ∃ s,
        run ⟨.operand o, .query q next :: rest⟩ (toks y) = .ok s ∧
          Rests s ⟨add q y, next, rest⟩ := by
      rintro y hy o ho q
      rw [List.mem_singleton.1 ho]
      exact hentry y hy q rest
    obtain ⟨s, hrun, hrests⟩ := exists_run_entries add [.condition] hentry' hfollows
      List.mem_cons_self hcomma (List.cons_ne_nil x xs) List.mem_cons_self q
    refine ⟨s, ?_, hrests⟩
    rw [← hrun]
    exact run_step (by simp [Phase.expected, Token.ofKeyword]) rfl

lemma foldl_addItem (xs : List Node) (q : Select) :
    xs.foldl addItem q = { q with items := q.items ++ xs } := by
  induction xs generalizing q with
  | nil => simp
  | cons x xs ih => simp [ih, addItem]

/-- A select with another entry in its `GROUP BY`. -/
def addGroup (q : Select) (x : Node) : Select := { q with groupBy := q.groupBy ++ [x] }

lemma foldl_addGroup (xs : List Node) (q : Select) :
    xs.foldl addGroup q = { q with groupBy := q.groupBy ++ xs } := by
  induction xs generalizing q with
  | nil => simp
  | cons x xs ih => simp [ih, addGroup]

def addSortKey (q : Select) (k : SortKey Node) : Select := addKey q k.expression k.descending

lemma foldl_addSortKey (keys : List (SortKey Node)) (q : Select) :
    keys.foldl addSortKey q = { q with orderBy := q.orderBy ++ keys } := by
  induction keys generalizing q with
  | nil => simp
  | cons k keys ih => simp [ih, addSortKey, addKey]

lemma condition_ne_strict : Opening.condition ≠ .strict := by decide

/-- An entry of an ordering, with its direction. -/
lemma exists_run_key {k : SortKey Node} (h : ReadsExpression k.expression) (q : Select)
    (rest : List Frame) : ∃ s, run ⟨.operand .condition, .query q .orderBy :: rest⟩
      (keyTokens ⟨k.expression.tokens, k.descending⟩) = .ok s ∧
        Rests s ⟨addSortKey q k, .orderBy, rest⟩ := by
  have hopen : IsOpen (.query q .orderBy :: rest) := isOpen_cons rfl
  obtain ⟨s, hrun, hready⟩ := h .condition (.query q .orderBy :: rest) condition_ne_strict hopen
  refine ⟨_, ?_, rests_ended (e := .direction) (by decide)⟩
  rw [keyTokens, run_append hrun, addSortKey]
  cases k.descending with
  | false => exact hready.run_cons hopen (by decide) rfl
  | true => exact hready.run_cons hopen (by decide) rfl

/-- Whether a printed query is read as it is, also inside another. -/
def ReadsQuery (q : Select) : Prop :=
  ∀ rest, ∃ s c, run ⟨.operand .select, .query .empty .items :: rest⟩ (selectTokens
    ⟨q.distinct, q.items.map Node.tokens, q.source.map Node.tokens, q.filter.map Node.tokens,
      q.groupBy.map Node.tokens, q.having.map Node.tokens,
      q.orderBy.map fun k => ⟨k.expression.tokens, k.descending⟩, q.limit, q.offset⟩) = .ok s ∧
        Rests s ⟨q, c, rest⟩

lemma exists_run_items {items : List Node} (h : ∀ x ∈ items, ReadsItem x) (hne : items ≠ [])
    (distinct : Bool) (rest : List Frame) :
    ∃ s, run ⟨.operand .select, .query .empty .items :: rest⟩
        (distinctTokens distinct ++ listed (items.map Node.tokens)) = .ok s ∧
      Rests s ⟨{ Select.empty with distinct := distinct, items := items }, .items, rest⟩ := by
  have hopening : run ⟨.operand .select, .query .empty .items :: rest⟩ (distinctTokens distinct) =
      .ok ⟨.operand (if distinct then .distinct else .select),
        .query { Select.empty with distinct := distinct } .items :: rest⟩ := by
    cases distinct with
    | false => rfl
    | true => exact run_step (by decide) rfl
  have ho : (if distinct then Opening.distinct else .select) ∈ itemOpenings := by
    cases distinct <;> decide
  have hitem : Opening.item ∈ itemOpenings := by decide
  obtain ⟨s, hrun, hrests⟩ := exists_run_entries addItem itemOpenings
    (fun x hx o ho q => h x hx o ho q rest) (by decide) hitem (fun _ => rfl) hne ho
    { Select.empty with distinct := distinct }
  refine ⟨s, (run_append hopening).trans hrun, ?_⟩
  rw [foldl_addItem] at hrests
  exact hrests

lemma tokens_ofNat (n : Nat) : (Literal.ofNat n).value.tokens = [.ofNat n] := by
  simp [Literal.ofNat, Value.tokens, intTokens]

lemma exists_run_limit {l : Literal} (hl : ∃ n, l = .ofNat n) (q : Select) (rest : List Frame) :
    ∃ s, run ⟨.count .limit, .query q .limit :: rest⟩ l.value.tokens = .ok s ∧
      Rests s ⟨{ q with limit := some l }, .limit, rest⟩ := by
  obtain ⟨n, rfl⟩ := hl
  refine ⟨_, ?_, rests_ended (e := .limit) (by decide)⟩
  rw [tokens_ofNat]
  refine run_step (show Terminal.integer ∈ [Terminal.integer] by decide) ?_
  simp [step, Token.ofNat, ofExact_digitsOf, go]

lemma exists_run_offset {l : Literal} (hl : ∃ n, l = .ofNat n) (q : Select) (rest : List Frame) :
    ∃ s, run ⟨.count .offset, .query q .offset :: rest⟩ l.value.tokens = .ok s ∧
      Rests s ⟨{ q with offset := some l }, .offset, rest⟩ := by
  obtain ⟨n, rfl⟩ := hl
  refine ⟨_, ?_, rests_ended (e := .offset) (by decide)⟩
  rw [tokens_ofNat]
  refine run_step (show Terminal.integer ∈ [Terminal.integer] by decide) ?_
  simp [step, Token.ofNat, ofExact_digitsOf, go]

/-- The clauses of a select are read in the order in which they are printed. -/
lemma readsQuery {q : Select} (hne : q.items ≠ []) (items : ∀ x ∈ q.items, ReadsItem x)
    (source : ∀ x ∈ q.source, ReadsTables x) (filter : ∀ x ∈ q.filter, ReadsExpression x)
    (groupBy : ∀ x ∈ q.groupBy, ReadsExpression x) (having : ∀ x ∈ q.having, ReadsExpression x)
    (orderBy : ∀ k ∈ q.orderBy, ReadsExpression k.expression)
    (limit : ∀ l ∈ q.limit, ∃ n, l = .ofNat n) (offset : ∀ l ∈ q.offset, ∃ n, l = .ofNat n) :
    ReadsQuery q := by
  intro rest
  let q₁ : Select := { Select.empty with distinct := q.distinct, items := q.items }
  let q₂ : Select := { q₁ with source := q.source }
  let q₃ : Select := { q₂ with filter := q.filter }
  let q₄ : Select := { q₃ with groupBy := q.groupBy }
  let q₅ : Select := { q₄ with having := q.having }
  let q₆ : Select := { q₅ with orderBy := q.orderBy }
  let q₇ : Select := { q₆ with limit := q.limit }
  obtain ⟨s₁, hrun₁, hrests₁⟩ := exists_run_items items hne q.distinct rest
  have hsource : ReadsClause .source q₁ (clauseTokens [.from] (q.source.map Node.tokens)) q₂ :=
    readsClause_option (fun v => { q₁ with source := v }) rfl rfl fun x hx rest =>
      source x hx q₁ rest
  have hfilter : ReadsClause .filter q₂ (clauseTokens [.where] (q.filter.map Node.tokens)) q₃ :=
    readsClause_option (fun v => { q₂ with filter := v }) rfl rfl fun x hx rest =>
      (filter x hx).rests condition_ne_strict (isOpen_cons rfl) rfl
  have hgroupBy : ReadsClause .groupBy q₃
      (clausesTokens [.group, .by] (q.groupBy.map Node.tokens)) q₄ := by
    have h := readsClause_by (k := .group) (q := q₃) addGroup rfl fun x hx q rest =>
      (groupBy x hx).rests condition_ne_strict (isOpen_cons (f := .query q .groupBy) rfl) rfl
    rwa [foldl_addGroup] at h
  have hhaving : ReadsClause .having q₄ (clauseTokens [.having] (q.having.map Node.tokens)) q₅ :=
    readsClause_option (fun v => { q₄ with having := v }) rfl rfl fun x hx rest =>
      (having x hx).rests condition_ne_strict (isOpen_cons rfl) rfl
  have horderBy : ReadsClause .orderBy q₅ (clausesTokens [.order, .by]
      (q.orderBy.map fun k => keyTokens ⟨k.expression.tokens, k.descending⟩)) q₆ := by
    have h := readsClause_by (k := .order) (q := q₅) addSortKey rfl fun k hk q rest =>
      exists_run_key (orderBy k hk) q rest
    rwa [foldl_addSortKey] at h
  have hlimit : ReadsClause .limit q₆ (clauseTokens [.limit] (q.limit.map (·.value.tokens))) q₇ :=
    readsClause_option (fun v => { q₆ with limit := v }) rfl rfl fun l hl rest =>
      exists_run_limit (limit l hl) q₆ rest
  have hoffset : ReadsClause .offset q₇
      (clauseTokens [.offset] (q.offset.map (·.value.tokens))) q :=
    readsClause_option (fun v => { q₇ with offset := v }) rfl rfl fun l hl rest =>
      exists_run_offset (offset l hl) q₇ rest
  obtain ⟨s₂, c₂, hrun₂, hrests₂, hc₂⟩ := hsource _ _ _ hrests₁ (by decide)
  obtain ⟨s₃, c₃, hrun₃, hrests₃, hc₃⟩ := hfilter _ _ _ hrests₂ (hc₂.trans_lt (by decide))
  obtain ⟨s₄, c₄, hrun₄, hrests₄, hc₄⟩ := hgroupBy _ _ _ hrests₃ (hc₃.trans_lt (by decide))
  obtain ⟨s₅, c₅, hrun₅, hrests₅, hc₅⟩ := hhaving _ _ _ hrests₄ (hc₄.trans_lt (by decide))
  obtain ⟨s₆, c₆, hrun₆, hrests₆, hc₆⟩ := horderBy _ _ _ hrests₅ (hc₅.trans_lt (by decide))
  obtain ⟨s₇, c₇, hrun₇, hrests₇, hc₇⟩ := hlimit _ _ _ hrests₆ (hc₆.trans_lt (by decide))
  obtain ⟨s₈, c₈, hrun₈, hrests₈, -⟩ := hoffset _ _ _ hrests₇ (hc₇.trans_lt (by decide))
  refine ⟨s₈, c₈, ?_, hrests₈⟩
  rw [← hrun₈, ← run_append hrun₇, ← run_append hrun₆, ← run_append hrun₅, ← run_append hrun₄,
    ← run_append hrun₃, ← run_append hrun₂, ← run_append hrun₁, selectTokens, List.map_map]
  simp only [List.append_assoc]
  rfl

/-! ### Trees -/

lemma readsOperand_scalarQuery {q : Select} (hq : ReadsQuery q) :
    ReadsOperand (.apply .scalarQuery [.select q]) := by
  refine readsOperand_of_run rfl fun o fs => ⟨.atom, by decide, ?_⟩
  obtain ⟨s, c, hrun, hrests⟩ := hq (.bracket :: fs)
  have htokens : (Node.apply .scalarQuery [.select q]).tokens =
      .ofSign .opening :: ((Node.select q).tokens ++ [.ofSign .closing]) := by
    rw [Node.apply, Node.tokens_scalarQuery rfl, inBrackets]
  have hselect (ts : List Token) : run ⟨.operand .bracket, .bracket :: fs⟩
      (.ofKeyword .select :: ts) =
        run ⟨.operand .select, .query .empty .items :: .bracket :: fs⟩ ts :=
    run_step (by decide) rfl
  have hclosing : .sign .closing ∈ c.follows := by cases c <;> decide
  rw [htokens, run_opening, Node.tokens_select, List.cons_append, hselect, run_append hrun]
  exact hrests.run_cons hclosing (by simp [settledStep, Token.ofSign, go])

/-- Whether a printed tree is read as it is where its kind of tree is expected. -/
def Reads : Category → Node → Prop
  | .expression, x => ReadsOperand x ∧ ReadsExpression x
  | .item, x => ReadsItem x
  | .tables, x => ReadsTables x
  | .query, x => ∃ q, x = .select q ∧ ReadsQuery q

lemma reads_of_operand (h : ReadsOperand x) (hb : x.isBracketed = false) : Reads .expression x :=
  ⟨h, h.expression hb⟩

lemma reads_of_expression (h : ReadsExpression x) (hb : x.isBracketed = true) :
    Reads .expression x :=
  ⟨h.operand hb, h⟩

lemma isTight_apply {op : Operator} {xs : List Node} (hop : op.isTight = true)
    (h : (Node.apply op xs).hasLooseNot = false) : ∀ x ∈ xs, x.isNegation = false := by
  simpa [Node.apply, Node.hasLooseNot, hop] using h

/-- A tree of a plain text without loose negations is read as it is printed. -/
theorem reads_of_isParsed {k : Category} {n : Node} (h : n.IsParsed True k)
    (htight : ∀ m : Node, m.StandsIn n → m.hasLooseNot = false) : Reads k n := by
  -- What stands in a child stands in the node.
  have hchild {m n : Node} (hm : m ∈ n.children)
      (h : ∀ l : Node, l.StandsIn n → l.hasLooseNot = false) :
      ∀ l : Node, l.StandsIn m → l.hasLooseNot = false := fun l hl => h l (.child hm hl)
  induction h with
  | column h hw => exact reads_of_operand (readsOperand_column h (hw trivial)) rfl
  | literal h => exact reads_of_operand (readsOperand_literal h) rfl
  | @infixed op x y hop _ _ ihx ihy =>
    have hx := ihx (hchild (by simp [children, Node.apply]) htight)
    have hy := ihy (hchild (by simp [children, Node.apply]) htight)
    refine reads_of_expression (readsExpression_infixed hop hx.1 hy.1 fun ht => ?_) ?_
    · simpa using isTight_apply ht (htight _ .self)
    · cases op <;> first | rfl | cases hop
  | @prefixed op x hop hn _ ih =>
    have hx := ih (hchild (by simp [children, Node.apply]) htight)
    cases op with
    | not => exact reads_of_operand (readsOperand_not hx.1) rfl
    | negate =>
      have hneg : x.isNegation = false := by simpa using isTight_apply rfl (htight _ .self)
      exact reads_of_operand (readsOperand_negate hx.1 hneg (hn rfl)) rfl
    | _ => cases hop
  | @test op x hop _ ih =>
    have hx := ih (hchild (by simp [children, Node.apply]) htight)
    have ht : op.isTight = true := by cases op <;> first | rfl | cases hop
    have hneg : x.isNegation = false := by simpa using isTight_apply ht (htight _ .self)
    refine reads_of_expression (readsExpression_test hop hx.1 hneg) ?_
    cases op <;> first | rfl | cases hop
  | @function name hw d xs _ ih =>
    have hxs : ∀ x ∈ xs, ReadsExpression x := fun x hx =>
      (ih x hx (hchild (n := functionCall name d xs) hx htight)).2
    exact reads_of_operand (readsOperand_function (hw trivial) d hxs)
      (isBracketed_functionCall _ _ _)
  | functionOfAll hw d =>
    exact reads_of_operand (readsOperand_functionOfAll (hw trivial) d)
      (isBracketed_functionCall _ _ _)
  | cast _ ht hw ih =>
    have hx := ih (hchild (by simp [children, Node.apply]) htight)
    exact reads_of_operand (readsOperand_cast hx.1 ht (hw trivial)) rfl
  | @within x xs _ hne _ ihx ih =>
    have hx := ihx (hchild (by simp [children, Node.apply]) htight)
    have hlist := hchild (m := .list xs) (by simp [children, Node.apply]) htight
    have hxs : ∀ y ∈ xs, ReadsExpression y := fun y hy =>
      (ih y hy (hchild (n := .list xs) hy hlist)).2
    have hneg := (List.forall_mem_cons.1 (isTight_apply rfl (htight _ .self))).1
    exact reads_of_expression (readsExpression_within hx.1 hneg hxs hne) rfl
  | scalarQuery _ ih =>
    obtain ⟨_, ⟨⟩, hq⟩ := ih (hchild (by simp [children, Node.apply]) htight)
    exact reads_of_operand (readsOperand_scalarQuery hq) rfl
  | item _ ih => exact (ih htight).2.item
  | all => exact readsItem_star
  | allOf hw => exact readsItem_allOf (hw trivial)
  | named _ hw ih =>
    have hx := ih (hchild (by simp [children, Node.named, Node.apply]) htight)
    exact readsItem_named hx.1 (hw trivial)
  | table hw => exact readsTables_table (hw trivial)
  | join _ kind hw ih =>
    exact readsTables_join (ih (hchild (by simp [children]) htight)) kind (hw trivial)
  | joinOn _ hkind hw _ ihx ihy =>
    have hx := ihx (hchild (by simp [children]) htight)
    have hy := ihy (hchild (by simp [children]) htight)
    exact readsTables_joinOn hx hkind (hw trivial) hy.2
  | @query q hne _ _ _ _ _ _ hlimit hoffset ihItems ihSource ihFilter ihGroupBy ihHaving
      ihOrderBy =>
    have hbelow {m : Node} (hm : m ∈ (Node.select q).children) := hchild hm htight
    simp only [children, List.mem_append, Option.mem_toList, List.mem_map] at hbelow
    refine ⟨q, rfl, readsQuery hne ?_ ?_ ?_ ?_ ?_ ?_ hlimit hoffset⟩
    · exact fun x hx => ihItems x hx (hbelow (by simp [hx]))
    · exact fun x hx => ihSource x hx (hbelow (by simp_all))
    · exact fun x hx => (ihFilter x hx (hbelow (by simp_all))).2
    · exact fun x hx => (ihGroupBy x hx (hbelow (by simp_all))).2
    · exact fun x hx => (ihHaving x hx (hbelow (by simp_all))).2
    · exact fun k hk => (ihOrderBy k hk (hbelow (.inr ⟨k, hk, rfl⟩))).2

/-! ### Texts of expressions -/

/-- **A select item of a plain text, or an expression in one, is parsed from its own text again, if
no `NOT` in it is an operand of an operator that binds more tightly.** -/
theorem parse_printed {text : String} {q : Select} {e : Node}
    (hplain : ∀ t ∈ tokens text, t.isPlain = true) (h : parse text = .ok q)
    (he : e.StandsIn (.select q)) (hexpression : e.isExpression = true)
    (htight : ∀ m : Node, m.StandsIn e → m.hasLooseNot = false) :
    ∃ w, e.sql? = some w ∧ parse ("SELECT " ++ w) = .ok { Select.empty with items := [e] } := by
  have hparsed : (Node.select q).IsParsed True .query :=
    isParsed_of_parse (fun t ht _ => hplain t ht) h
  have hitem := hparsed.item_of_standsIn he hexpression
  obtain ⟨w, hw, hspells⟩ := hitem.isWritten.prints hitem.hasPlainWords
  obtain ⟨s, hrun, hrests⟩ := (show ReadsItem e from reads_of_isParsed hitem htight)
    .select (by decide) .empty []
  refine ⟨w, hw, ?_⟩
  have hselect : run .initial (.ofKeyword .select :: e.tokens) = .ok s :=
    (run_step (by decide) rfl).trans hrun
  have hfinish : s.finish? = some (addItem .empty e) := by
    simp [State.finish?, hrests.settled]
  have hread := read_of_spells (hspells.keyword .select) hselect hfinish .start .start
  rw [parse, String.toList_append]
  exact hread

/-- `NOT a = -1` -/
def negation : Node :=
  .apply .not [.apply (.comparison .equal) [column ["a"], .literal ⟨.int (-1), .integer⟩]]

theorem parse_printed_negation : ∃ w, negation.sql? = some w ∧
    parse ("SELECT " ++ w) = .ok { Select.empty with items := [negation] } :=
  have hplain : ∀ t ∈ tokens "SELECT NOT a = -1 FROM t", t.isPlain = true := by decide
  have hparse : parse "SELECT NOT a = -1 FROM t" =
      .ok { Select.empty with items := [negation], source := some (.table ⟨"t", none⟩) } := rfl
  have hcolumn : ∀ m : Node, m.StandsIn (column ["a"]) → m.hasLooseNot = false :=
    Node.forall_standsIn_leaf rfl rfl
  have hnumber : ∀ m : Node, m.StandsIn (.literal ⟨.int (-1), .integer⟩) → m.hasLooseNot = false :=
    Node.forall_standsIn_leaf rfl rfl
  have htight : ∀ m : Node, m.StandsIn negation → m.hasLooseNot = false :=
    Node.forall_standsIn rfl (List.forall_mem_singleton.2 (Node.forall_standsIn rfl
      (List.forall_mem_cons.2 ⟨hcolumn, List.forall_mem_singleton.2 hnumber⟩)))
  parse_printed hplain hparse (.child List.mem_cons_self .self) rfl htight

/-- `(NOT a) IS NULL` -/
def testedNegation : Node := .apply .isNull [.apply .not [column ["a"]]]

/-- Without its brackets, `NOT` applies to the whole test. -/
theorem not_parse_printed_testedNegation :
    (∀ t ∈ tokens "SELECT (NOT a) IS NULL", t.isPlain = true) ∧
      parse "SELECT (NOT a) IS NULL" = .ok { Select.empty with items := [testedNegation] } ∧
      ∃ w, testedNegation.sql? = some w ∧
        parse ("SELECT " ++ w) ≠ .ok { Select.empty with items := [testedNegation] } := by
  refine ⟨by decide, rfl, "NOT a IS NULL", rfl, fun h => ?_⟩
  have hread : parse ("SELECT " ++ "NOT a IS NULL") =
      .ok { Select.empty with items := [.apply .not [.apply .isNull [column ["a"]]]] } := rfl
  rw [hread] at h
  simp [testedNegation, Node.apply] at h

end Parser

end GraphSelect
