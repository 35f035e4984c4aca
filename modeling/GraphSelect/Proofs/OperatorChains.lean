import GraphSelect.Proofs.Reparsing

/-!
Chains of operators.

No brackets say which operands of a chain belong together. Its tree is split at the last operator of
the loosest level, and so are the parts on both sides. The parser never looks for that operator: the
operators that wait for their right operand bind more tightly from one to the next, each has the
tree of the links between it and the one before as its left operand, and an operator that arrives
completes those that bind at least as tightly. So every operator that still waits is the last one of
the loosest level behind the one before it, and this is what makes the completed tree the split one.
-/

namespace GraphSelect

/-- The operators of chains. -/
inductive ChainOperator where
  | or | and
  | arithmetic (a : Arithmetic)
  deriving DecidableEq

namespace ChainOperator

def operator : ChainOperator → Operator
  | .or => .or
  | .and => .and
  | .arithmetic a => .arithmetic a

/-- The level of an operator, counted from the loosest. -/
def level : ChainOperator → Nat
  | .or => 0
  | .and => 1
  | .arithmetic .plus | .arithmetic .minus => 2
  | .arithmetic _ => 3

end ChainOperator

/-- A column of a chain and the operator behind it. -/
structure Link where
  name : String
  operator : ChainOperator

namespace Link

def level (m : Link) : Nat := m.operator.level

/-- The tree of a link and its operands. -/
def apply (m : Link) (left right : Node) : Node := .apply m.operator.operator [left, right]

end Link

namespace Chain

/-- The last link that passes a test, between the links before and behind it. -/
def splitLast? (p : Link → Bool) : List Link → Option (List Link × Link × List Link)
  | [] => none
  | m :: ms =>
    match splitLast? p ms with
    | some (before, last, after) => some (m :: before, last, after)
    | none => if p m then some ([], m, ms) else none

/-- The last link of the loosest level that there is, between the links before and behind it. -/
def splitLoosest? (links : List Link) : Option (List Link × Link × List Link) :=
  (links.map Link.level).min?.bind fun l => splitLast? (·.level = l) links

/-! ### Splitting -/

variable {p : Link → Bool} {links before after : List Link} {m : Link}

lemma splitLast?_append (hm : p m = true) (hafter : ∀ k ∈ after, p k = false) :
    splitLast? p (before ++ m :: after) = some (before, m, after) := by
  have hnone : splitLast? p after = none := by
    induction after with
    | nil => rfl
    | cons k after ih =>
      obtain ⟨hk, hafter⟩ := List.forall_mem_cons.1 hafter
      simp [splitLast?, ih hafter, hk]
  induction before with
  | nil => simp [splitLast?, hnone, hm]
  | cons k before ih => simp [splitLast?, ih]

lemma eq_append_of_splitLast? (h : splitLast? p links = some (before, m, after)) :
    links = before ++ m :: after := by
  induction links generalizing before with
  | nil => cases h
  | cons k links ih =>
    unfold splitLast? at h
    split at h
    · next hlast =>
      cases h
      rw [ih hlast, List.cons_append]
    · rw [Option.ite_none_right_eq_some] at h
      cases h.2
      rfl

lemma eq_append_of_splitLoosest? (h : splitLoosest? links = some (before, m, after)) :
    links = before ++ m :: after := by
  obtain ⟨l, -, h⟩ := Option.bind_eq_some_iff.1 h
  exact eq_append_of_splitLast? h

/-- A link is the last one of the loosest level if no link before it is looser, and every link
behind it is tighter. -/
lemma splitLoosest?_append (hbefore : ∀ k ∈ before, m.level ≤ k.level)
    (hafter : ∀ k ∈ after, m.level < k.level) :
    splitLoosest? (before ++ m :: after) = some (before, m, after) := by
  have hmin : ((before ++ m :: after).map Link.level).min? = some m.level := by
    refine List.min?_eq_some_iff.2 ⟨List.mem_map_of_mem (by simp), fun l hl => ?_⟩
    obtain ⟨k, hk, rfl⟩ := List.mem_map.1 hl
    rcases List.mem_append.1 hk with hk | hk
    · exact hbefore k hk
    · rcases List.mem_cons.1 hk with rfl | hk
      · exact le_rfl
      · exact (hafter k hk).le
  have hlast : splitLast? (·.level = m.level) (before ++ m :: after) = some (before, m, after) :=
    splitLast?_append (by simp) fun k hk => by simpa using (hafter k hk).ne'
  rw [splitLoosest?, hmin]
  exact hlast

/-! ### Trees -/

/-- The tree of a chain of columns, of which `last` has no operator behind it. -/
def tree (links : List Link) (last : String) : Node :=
  match _ : splitLoosest? links with
  | none => Parser.column [last]
  | some (before, m, after) => m.apply (tree before m.name) (tree after last)
termination_by links.length
decreasing_by
  all_goals
    have hlength := congrArg List.length (eq_append_of_splitLoosest? ‹_›)
    simp only [List.length_append, List.length_cons] at hlength
    omega

variable (last : String)

lemma tree_nil : tree [] last = Parser.column [last] := by
  rw [tree]
  split
  · rfl
  · next h => cases h

lemma tree_append (hbefore : ∀ k ∈ before, m.level ≤ k.level)
    (hafter : ∀ k ∈ after, m.level < k.level) :
    tree (before ++ m :: after) last = m.apply (tree before m.name) (tree after last) := by
  have hsplit := splitLoosest?_append hbefore hafter
  rw [tree]
  split
  · next h => simp [hsplit] at h
  · next h =>
    rw [hsplit] at h
    cases h
    rfl

/-! ### Texts -/

/-- The words and signs of a chain. -/
def words (links : List Link) (last : String) : List String :=
  links.flatMap (fun m => [m.name, m.operator.operator.name]) ++ [last]

def tokens (links : List Link) (last : String) : List Token :=
  links.flatMap (fun m => .word m.name :: m.operator.operator.tokens) ++ [.word last]

end Chain

/-- The texts in which words and signs stand one after the other, with blanks between them. -/
inductive Spaced : List String → List Char → Prop
  | nil : Spaced [] []
  | blank {ws : List String} {c : Char} {cs : List Char} (hc : isGap c = true) (h : Spaced ws cs) :
      Spaced ws (c :: cs)
  | word {w : String} {ws : List String} {cs : List Char} (hcs : ∀ c ∈ cs.head?, isGap c = true)
      (h : Spaced ws cs) : Spaced (w :: ws) (w.toList ++ cs)

lemma spaced_intercalate (ws : List String) : Spaced ws (" ".intercalate ws).toList := by
  induction ws with
  | nil => exact .nil
  | cons w ws ih =>
    cases ws with
    | nil =>
      have h : Spaced [w] (w.toList ++ []) := .word (by simp) .nil
      simpa using h
    | cons v ws =>
      have h : Spaced (w :: v :: ws) (w.toList ++ ' ' :: (" ".intercalate (v :: ws)).toList) :=
        .word (by rintro _ ⟨⟩; rfl) (.blank rfl ih)
      simpa [String.intercalate_cons_cons] using h

namespace Parser

variable {s s' : State} {fs rest : List Frame} {o : Opening}

lemma stopsAt_of_isGap {c : Char} (h : isGap c = true) (t : Token) : t.stopsAt c = true := by
  simp only [isGap, Bool.or_eq_true, decide_eq_true_eq] at h
  unfold Token.stopsAt
  rcases h with (((rfl | rfl) | rfl) | rfl) | rfl <;> split <;> decide

/-- A text is read as the tokens that stand in it with blanks between them. -/
theorem read_of_spaced {q : Select} {ts : List Token} {ws : List String} {cs : List Char}
    (hprinted : ∀ t ∈ ts, t.IsPrinted) (hws : ts.map (fun t => String.ofList t.text) = ws)
    (h : Spaced ws cs) (hrun : run s ts = .ok s') (hq : s'.finish? = some q)
    (last pos : Position) : read s last pos 0 cs = .ok q := by
  induction h generalizing s ts last pos with
  | nil =>
    obtain rfl := List.map_eq_nil_iff.1 hws
    cases hrun
    rw [read, hq]
  | blank hc h ih =>
    rw [read, if_pos hc]
    exact ih hprinted hws hrun _ _
  | @word w ws cs hcs h ih =>
    obtain ⟨t, ts, rfl, rfl, htexts⟩ := List.map_eq_cons_iff.1 hws
    obtain ⟨ht, hprinted⟩ := List.forall_mem_cons.1 hprinted
    obtain ⟨hexpected, s₁, hstep, hrun⟩ := run_cons_eq_ok hrun
    rw [String.toList_ofList]
    exact read_token ht (fun c hc => stopsAt_of_isGap (hcs c hc) t) hexpected hstep
      (ih hprinted htexts hrun) last pos

/-! ### Pending operators -/

/-- The operators that wait for their right operand when some links have been read, and the level
from which on the next links are part of that operand. -/
inductive Pends (rest : List Frame) : List Link → List Frame → Nat → Prop
  | none : Pends rest [] rest 0
  | link {links : List Link} {fs : List Frame} {bound : Nat} (h : Pends rest links fs bound)
      {between : List Link} {m : Link} (hbound : bound ≤ m.level)
      (hbetween : ∀ k ∈ between, m.level ≤ k.level) :
      Pends rest (links ++ between ++ [m])
        (.infixed m.operator.operator (Chain.tree between m.name) :: fs) (m.level + 1)

/-- The levels of chains are those at which the parser completes their operators. -/
lemma precedence_le_iff (m k : ChainOperator) :
    precedence m.operator ≤ precedence k.operator ↔ m.level ≤ k.level := by
  rcases m with _ | _ | _ | _ | _ | _ | _ <;> rcases k with _ | _ | _ | _ | _ | _ | _ <;> decide

/-- Completing the operators from some level on leaves those that are looser, and makes one tree of
all links behind them. -/
lemma exists_reduce {links : List Link} {bound n l : Nat}
    (hn : ∀ m : ChainOperator, n ≤ precedence m.operator ↔ l ≤ m.level) (hrest : IsOpen rest)
    (h : Pends rest links fs bound) (between : List Link) (last : String)
    (hbound : ∀ k ∈ between, bound ≤ k.level) (hlevel : ∀ k ∈ between, l ≤ k.level) :
    ∃ links' between' fs' bound', links ++ between = links' ++ between' ∧
      reduce n (Chain.tree between last) fs = (Chain.tree between' last, fs') ∧
      Pends rest links' fs' bound' ∧ bound' ≤ l ∧ ∀ k ∈ between', l ≤ k.level := by
  induction h generalizing between with
  | none =>
    exact ⟨[], between, rest, 0, rfl, reduce_of_isOpen hrest n _, .none, Nat.zero_le l, hlevel⟩
  | @link links fs bound h left m hm hleft ih =>
    by_cases hl : l ≤ m.level
    · have htree := Chain.tree_append last hleft hbound
      have hall : ∀ k ∈ left ++ m :: between, m.level ≤ k.level :=
        List.forall_mem_append.2 ⟨hleft, List.forall_mem_cons.2
          ⟨le_rfl, fun k hk => (Nat.lt_of_succ_le (hbound k hk)).le⟩⟩
      obtain ⟨links', between', fs', bound', heq, hreduce, hpends⟩ :=
        ih (left ++ m :: between) (fun k hk => hm.trans (hall k hk))
          fun k hk => hl.trans (hall k hk)
      refine ⟨links', between', fs', bound', by simpa using heq, ?_, hpends⟩
      rw [reduce, if_pos ((hn m.operator).2 hl), ← hreduce, htree, Link.apply]
    · refine ⟨links ++ left ++ [m], between, _, m.level + 1, rfl, ?_, .link h hm hleft,
        Nat.lt_of_not_le hl, hlevel⟩
      rw [reduce, if_neg (mt (hn m.operator).1 hl)]

lemma Pends.isOpen_of_bound {links : List Link} {bound : Nat} (h : Pends rest links fs bound)
    (hbound : bound ≤ 0) : links = [] ∧ fs = rest := by
  cases h with
  | none => exact ⟨rfl, rfl⟩
  | link => simp at hbound

/-- What ends a chain completes its tree. -/
lemma Pends.reduce_eq {links : List Link} {bound : Nat} (h : Pends rest links fs bound)
    (hrest : IsOpen rest) (last : String) :
    reduce 0 (column [last]) fs = (Chain.tree links last, rest) := by
  obtain ⟨links', between', fs', bound', heq, hreduce, hpends, hbound, -⟩ :=
    exists_reduce (n := 0) (l := 0) (by simp) hrest h [] last (by simp) (by simp)
  obtain ⟨rfl, rfl⟩ := hpends.isOpen_of_bound hbound
  rw [Chain.tree_nil, List.nil_append, List.append_nil] at *
  rw [hreduce, heq]

/-! ### Reading chains -/

lemma infixStep_of_precedence {op : Operator} (hop : precedence op ≠ 4) (e : Node)
    (fs : List Frame) : ∃ o, infixStep op e .name fs =
      go (.operand o) (.infixed op (reduce (precedence op) e fs).1 ::
        (reduce (precedence op) e fs).2) := by
  unfold infixStep
  rw [if_neg hop]
  split
  · exact ⟨_, rfl⟩
  · exact ⟨_, rfl⟩

lemma precedence_ne_four (m : ChainOperator) : precedence m.operator ≠ 4 := by
  rcases m with _ | _ | _ | _ | _ | _ | _ <;> decide

lemma isInfix_operator (m : ChainOperator) : m.operator.isInfix = true := by cases m <;> rfl

/-- A link of a chain joins the operators that wait. -/
lemma exists_run_link {links : List Link} {bound : Nat} (h : Pends rest links fs bound)
    (hrest : IsOpen rest) (m : Link) (o : Opening) :
    ∃ o' fs' bound', Pends rest (links ++ [m]) fs' bound' ∧ ∀ ts,
      run ⟨.operand o, fs⟩ (.word m.name :: (m.operator.operator.tokens ++ ts)) =
        run ⟨.operand o', fs'⟩ ts := by
  obtain ⟨links', between', fs', bound', heq, hreduce, hpends, hbound, hbetween⟩ :=
    exists_reduce (precedence_le_iff m.operator) hrest h [] m.name (by simp) (by simp)
  rw [Chain.tree_nil] at hreduce
  rw [List.append_nil] at heq
  obtain ⟨t, htokens, hinfix, hfollows⟩ := exists_infixToken (isInfix_operator m.operator)
  obtain ⟨o', hstep⟩ :=
    infixStep_of_precedence (precedence_ne_four m.operator) (column [m.name]) fs
  rw [hreduce] at hstep
  refine ⟨o', _, _, heq ▸ hpends.link hbound hbetween, fun ts => ?_⟩
  rw [htokens, run_word]
  refine run_step (mem_expected_of_mem_operandFollows hfollows (by decide) _) ?_
  simp only [step, valueStep, hinfix]
  exact hstep

lemma exists_run_links {read : List Link} {bound : Nat} (h : Pends rest read fs bound)
    (hrest : IsOpen rest) (links : List Link) (last : String) (o : Opening) :
    ∃ fs' bound', Pends rest (read ++ links) fs' bound' ∧
      run ⟨.operand o, fs⟩ (Chain.tokens links last) = .ok ⟨.value (column [last]) .name, fs'⟩ := by
  induction links generalizing read fs bound o with
  | nil => exact ⟨fs, bound, by simpa using h, run_word last⟩
  | cons m links ih =>
    obtain ⟨o', fs₁, bound₁, hpends, hrun⟩ := exists_run_link h hrest m o
    obtain ⟨fs', bound', hpends', hrun'⟩ := ih hpends o'
    refine ⟨fs', bound', by simpa using hpends', ?_⟩
    rw [← hrun', ← hrun]
    simp [Chain.tokens]

/-- A chain is read as its tree. -/
theorem exists_run_chain (links : List Link) (last : String) (hrest : IsOpen rest) (o : Opening) :
    ∃ s, run ⟨.operand o, rest⟩ (Chain.tokens links last) = .ok s ∧
      Ready s (Chain.tree links last) rest := by
  obtain ⟨fs, bound, hpends, hrun⟩ := exists_run_links .none hrest links last o
  exact ⟨_, hrun, _, _, fs, rfl, hpends.reduce_eq hrest last⟩

lemma isPrinted_chain {links : List Link} {last : String}
    (hlinks : ∀ m ∈ links, isPlainWord m.name.toList = true)
    (hlast : isPlainWord last.toList = true) : ∀ t ∈ Chain.tokens links last, t.IsPrinted := by
  have hoperator (m : ChainOperator) : ∀ t ∈ m.operator.tokens, t.IsPrinted := by
    rcases m with _ | _ | a
    · exact List.forall_mem_singleton.2 (.ofKeyword .or)
    · exact List.forall_mem_singleton.2 (.ofKeyword .and)
    · exact List.forall_mem_singleton.2 (.ofSign a.sign)
  refine List.forall_mem_append.2 ⟨fun t ht => ?_, List.forall_mem_singleton.2 (.word hlast)⟩
  obtain ⟨m, hm, ht⟩ := List.mem_flatMap.1 ht
  rcases List.mem_cons.1 ht with rfl | ht
  · exact .word (hlinks m hm)
  · exact hoperator m.operator t ht

lemma texts_chain (links : List Link) (last : String) :
    (Chain.tokens links last).map (fun t => String.ofList t.text) = Chain.words links last := by
  have hoperator (m : ChainOperator) :
      m.operator.tokens.map (fun t => String.ofList t.text) = [m.operator.name] := by
    rcases m with _ | _ | _ | _ | _ | _ | _ <;> rfl
  simp [Chain.tokens, Chain.words, List.map_flatMap, hoperator, Token.word]

/-- **A chain of columns is parsed as the tree that is split at the last operator of the loosest
level, on both sides again, whatever blanks stand between its words and signs.** -/
theorem parse_chain {links : List Link} {last : String} {text : String}
    (hlinks : ∀ m ∈ links, isPlainWord m.name.toList = true)
    (hlast : isPlainWord last.toList = true)
    (htext : Spaced ("SELECT" :: (Chain.words links last ++ ["FROM", "t"])) text.toList) :
    parse text = .ok { Select.empty with
      items := [Chain.tree links last], source := some (.table ⟨"t", none⟩) } := by
  have hitems : IsOpen [.query .empty .items] := isOpen_cons rfl
  obtain ⟨s, hrun, hready⟩ := exists_run_chain links last hitems .select
  have hrests := hready.rests hitems rfl
  have hfrom : run s [.ofKeyword .from, .word "t"] = .ok ⟨.tableRead none ⟨"t", none⟩,
      [.query (addItem .empty (Chain.tree links last)) .source]⟩ :=
    (hrests.run_cons (show .keyword .from ∈ Clause.items.follows by decide) rfl).trans rfl
  have hselect : run .initial (.ofKeyword .select ::
      (Chain.tokens links last ++ [.ofKeyword .from, .word "t"])) = _ :=
    (run_step (by decide) rfl).trans ((run_append hrun).trans hfrom)
  refine read_of_spaced ?_ ?_ htext hselect rfl .start .start
  · refine List.forall_mem_cons.2 ⟨.ofKeyword .select, List.forall_mem_append.2
      ⟨isPrinted_chain hlinks hlast, ?_⟩⟩
    exact List.forall_mem_cons.2 ⟨.ofKeyword .from, List.forall_mem_singleton.2 (.word (by decide))⟩
  · rw [List.map_cons, List.map_append, texts_chain]
    rfl

/-- `a - b - c * d OR e AND f OR`, the links of a chain that ends in `g` -/
def mixedLinks : List Link :=
  [⟨"a", .arithmetic .minus⟩, ⟨"b", .arithmetic .minus⟩, ⟨"c", .arithmetic .times⟩, ⟨"d", .or⟩,
   ⟨"e", .and⟩, ⟨"f", .or⟩]

theorem parse_mixedLinks :
    (∀ m ∈ mixedLinks, isPlainWord m.name.toList = true) ∧
      parse "SELECT a - b - c * d OR e AND f OR g FROM t" = .ok { Select.empty with
        items := [Chain.tree mixedLinks "g"], source := some (.table ⟨"t", none⟩) } :=
  have hlinks : ∀ m ∈ mixedLinks, isPlainWord m.name.toList = true := by decide
  ⟨hlinks, parse_chain hlinks (by decide) (spaced_intercalate _)⟩

example : Chain.tree mixedLinks "g" =
    .apply .or
      [.apply .or
        [.apply (.arithmetic .minus)
          [.apply (.arithmetic .minus) [column ["a"], column ["b"]],
           .apply (.arithmetic .times) [column ["c"], column ["d"]]],
         .apply .and [column ["e"], column ["f"]]],
       column ["g"]] := by
  cbv

end Parser

end GraphSelect
