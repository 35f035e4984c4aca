import GraphSelect.Plan.Grouping
import GraphSelect.Proofs.RowSteps

/-!
Conditions on groups.

The key of a group has for every column that rows are grouped by what its rows have for it, with a
mark in the place of what is missing. A filter of groups reads a column from there and takes the
mark for nothing, so that a condition on such columns keeps a group exactly if, as a filter of rows,
it keeps the rows of the group.
-/

namespace GraphSelect

/-! ### Plain names -/

/-- Letters, digits, `_` and `$`, of which neither a digit nor `$` comes first. -/
def isPlainName (name : String) : Bool :=
  match name.toList with
  | [] => false
  | c :: cs => (c.isAlpha || c = '_') && cs.all fun c => c.isAlphanum || c = '_' || c = '$'

lemma notMem_of_isPlainName {name : String} (h : isPlainName name) {c : Char}
    (hc : (c.isAlphanum || c = '_' || c = '$') = false) : c ∉ name.toList := by
  unfold isPlainName at h
  split at h
  · simp at h
  · next c' cs hname =>
    rw [hname]
    intro hmem
    simp only [Bool.and_eq_true, List.all_eq_true] at h
    rcases List.mem_cons.1 hmem with rfl | hmem
    · simp_all [Char.isAlphanum]
    · simp [h.2 c hmem] at hc

lemma isBroken_of_isPlainName {name : String} (h : isPlainName name) : isBroken name = false := by
  simp only [isBroken, List.any_eq_false]
  intro c hc
  simp only [Bool.or_eq_true, decide_eq_true_eq]
  rintro ((rfl | rfl) | rfl) <;> exact notMem_of_isPlainName h (by decide) hc

namespace Scope

/-- Plain names make different keys of different columns. -/
lemma groupKey_injective {l l' p p' : String} (hl : isPlainName l) (hp : isPlainName p)
    (h : groupKey l p = groupKey l' p') : l = l' ∧ p = p' := by
  have hlist : l.toList ++ '.' :: p.toList = l'.toList ++ '.' :: p'.toList := by
    have := congrArg String.toList h
    simpa [groupKey] using this
  obtain ⟨hl', -, hp'⟩ := (List.append_cons_inj_of_notMem
    (notMem_of_isPlainName hl (by decide)) (notMem_of_isPlainName hp (by decide))).1 hlist
  exact ⟨String.toList_injective hl', String.toList_injective hp'⟩

lemma isBroken_groupKey {l p : String} (hl : isPlainName l) (hp : isPlainName p) :
    isBroken (groupKey l p) = false := by
  simp only [groupKey, isBroken_append, isBroken_of_isPlainName hl, isBroken_of_isPlainName hp]
  rfl

end Scope

namespace Scope

variable (s : Scope) (is : List Identifier)

/-- Whether the columns, and the tables they belong to, have plain names. -/
def HasPlainNames : Prop :=
  ∀ i ∈ is, ∀ b c, s.owner i = .ok (b, c) → isPlainName b.name ∧ isPlainName c.property

/-- Whether a column is one of several, however it is written. -/
def IsAmong (i : Identifier) : Prop := ∃ j ∈ is, s.owner i = s.owner j

/-- The name of a group key and the steps that read it from a row, for one of the columns. -/
def IsKeyOf (k : String × Steps) : Prop :=
  ∃ i ∈ is, ∃ b c, s.owner i = .ok (b, c) ∧ k.1 = groupKey b.name c.property ∧
    s.columnSteps i = .ok k.2

end Scope

/-! ### Keys -/

variable {s : Scope} {groupBy : List Identifier} {keys : List (String × Steps)}

/-- The keys of columns are those of each of them, and no others. -/
lemma groupKeysFrom_columns {before : List (String × Steps)} {is : List Identifier}
    (h : groupKeysFrom s before (is.map .identifier) = .ok keys) :
    (∀ k ∈ before, k ∈ keys) ∧
      (∀ i ∈ is, ∃ b c, s.owner i = .ok (b, c) ∧
        Scope.groupKey b.name c.property ∈ keys.map (·.1)) ∧
      ∀ k ∈ keys, k ∈ before ∨ s.IsKeyOf is k := by
  induction is generalizing before with
  | nil =>
    cases h
    exact ⟨fun _ => id, by simp, fun _ => .inl⟩
  | cons i is ih =>
    rw [List.map_cons, groupKeysFrom] at h
    obtain ⟨o, ho, h⟩ := Outcome.bind_eq_ok.1 h
    cases ho
    obtain ⟨name, hname, h⟩ := Outcome.bind_eq_ok.1 h
    obtain ⟨⟨b, c⟩, hb, rfl⟩ := Outcome.map_eq_ok.1 hname
    have hlater {k : String × Steps} : s.IsKeyOf is k → s.IsKeyOf (i :: is) k :=
      fun ⟨j, hj, hk⟩ => ⟨j, List.mem_cons_of_mem _ hj, hk⟩
    dsimp only at h
    split at h
    · next hold =>
      obtain ⟨hkeys, hcols, horigin⟩ := ih h
      refine ⟨hkeys, fun j hj => ?_, fun k hk => (horigin k hk).imp_right hlater⟩
      rcases List.mem_cons.1 hj with rfl | hj
      · obtain ⟨k, hk, hname⟩ := List.lookup_isSome_iff.1 hold
        exact ⟨b, c, hb, List.mem_map.2 ⟨k, hkeys k hk, (eq_of_beq hname).symm⟩⟩
      · exact hcols j hj
    · obtain ⟨v, hv, h⟩ := Outcome.bind_eq_ok.1 h
      obtain ⟨hkeys, hcols, horigin⟩ := ih h
      have hnew := hkeys _ (List.mem_append_right before List.mem_cons_self)
      refine ⟨fun k hk => hkeys k (List.mem_append_left _ hk), fun j hj => ?_, fun k hk => ?_⟩
      · rcases List.mem_cons.1 hj with rfl | hj
        · exact ⟨b, c, hb, List.mem_map.2 ⟨_, hnew, rfl⟩⟩
        · exact hcols j hj
      · rcases horigin k hk with hk | hk
        · rcases List.mem_append.1 hk with hk | hk
          · exact .inl hk
          · rw [List.mem_singleton.1 hk]
            exact .inr ⟨i, List.mem_cons_self, b, c, hb, rfl, hv⟩
        · exact .inr (hlater hk)

/-- The keys that rows are grouped by are those of columns. -/
lemma isKeyOf_of_mem (hkeys : groupKeysFrom s [] (groupBy.map .identifier) = .ok keys)
    {k : String × Steps} (hk : k ∈ keys) : s.IsKeyOf groupBy k :=
  ((groupKeysFrom_columns hkeys).2.2 k hk).resolve_left List.not_mem_nil

/-- The text of a call is no key of columns with plain names. -/
lemma isGroupKey_of_isBroken (hkeys : groupKeysFrom s [] (groupBy.map .identifier) = .ok keys)
    (hplain : s.HasPlainNames groupBy) {text : String} (ht : isBroken text) :
    (s.startGrouping (keys.map (·.1))).isGroupKey text = false := by
  have hkey : text ∉ keys.map (·.1) := by
    intro hmem
    obtain ⟨k, hk, rfl⟩ := List.mem_map.1 hmem
    obtain ⟨j, hj, b, c, hb, hname, -⟩ := isKeyOf_of_mem hkeys hk
    obtain ⟨hl, hp⟩ := hplain j hj b c hb
    rw [hname, Scope.isBroken_groupKey hl hp] at ht
    exact Bool.false_ne_true ht
  simp only [Scope.isGroupKey, Scope.startGrouping, Scope.groupKeys, Option.getD_some,
    Bool.and_eq_false_iff, List.contains_eq_mem, decide_eq_false_iff_not]
  exact .inr hkey

lemma Operand.type_startGrouping (s : Scope) (names : List String) (o : Operand) :
    o.type (s.startGrouping names) = o.type s := by
  cases o <;> rfl

/-! ### Groups -/

namespace Executor

variable {E D : Type} [DecidableEq E] (x : Executor E D)

/-- Whether no property holds the mark of what is missing. -/
def HasNoMark : Prop :=
  ∀ e k d, x.graph.property? e k = some d →
    x.compares .notEqual d (x.ofValue (.text nullMark)) = true

/-- A traverser stands at the group of a row if the key there is the one that is projected from the
row. Without keys there is one group, of all rows. -/
def StandsAtGroup (s : Scope) (groupBy : List Identifier) (row : String → E) (u : Traverser E D) :
    Prop :=
  ∃ keys, groupKeysFrom s [] (groupBy.map .identifier) = .ok keys ∧
    (keys ≠ [] → ∃ key t, StandsAt s row t ∧ x.run (keySteps keys) t = [t.moved key] ∧
      u.here = .group key)

variable {x} {t u : Traverser E D}

lemma run_orMark {v : Steps} {d : Option D} (h : x.run v t = t.reading d) :
    x.run (orMark v) t = [t.moved (.data (d.getD (x.ofValue (.text nullMark))))] := by
  rw [orMark, x.run_coalesce, h]
  cases d <;> simp [x.run_constant]

lemma run_keySteps (keys : List (String × Steps)) (t : Traverser E D) :
    x.run (keySteps keys) t = [t.moved (.entries
      (entered (keys.map (·.1)) (keys.map fun k => x.run (orMark k.2) t)))] := by
  have := x.run_project (keys.map (·.1)) (keys.map fun k => orMark k.2) t (by simp)
  rwa [List.map_map, List.map_map] at this

lemma lookup_entered {name : String} {p : Place E D}
    (hmem : name ∈ keys.map (·.1))
    (hall : ∀ k ∈ keys, k.1 = name → x.run (orMark k.2) t = [t.moved p]) :
    (entered (keys.map (·.1)) (keys.map fun k => x.run (orMark k.2) t)).lookup name = some p := by
  induction keys with
  | nil => simp at hmem
  | cons k keys ih =>
    by_cases hk : k.1 = name
    · simp [entered, hall k (by simp) hk, hk]
    · have hrest := ih (by simpa [Ne.symm hk] using hmem) fun k hk => hall k (by simp [hk])
      have hne : (name == k.1) = false := by simpa using Ne.symm hk
      cases hhead : (x.run (orMark k.2) t).head? <;>
        simpa [entered, hhead, List.lookup_cons, hne] using hrest

/-- A key is read from the group, but for the mark. -/
lemma run_groupKeySteps {m : List (String × Place E D)} {name : String} {d : Option D}
    (hu : u.here = .group (.entries m))
    (hm : m.lookup name = some (.data (d.getD (x.ofValue (.text nullMark)))))
    (hd : ∀ d₀, d = some d₀ → x.compares .notEqual d₀ (x.ofValue (.text nullMark)) = true) :
    x.run (Scope.groupKeySteps name) u = u.reading d := by
  have hnamed : (u.moved (.entries m)).named? name =
      some (.data (d.getD (x.ofValue (.text nullMark)))) := by
    simp [Traverser.named?, hm]
  rw [Scope.groupKeySteps, ← List.singleton_append, x.run_append _ _ _ rfl, x.run_selectKeys _ _ hu,
    List.flatMap_singleton, ← List.singleton_append, x.run_append _ _ _ rfl, x.run_select, hnamed]
  simp only [Option.map_some, Option.toList_some, List.flatMap_singleton, Traverser.moved_moved]
  rw [x.run_satisfies _ _ _ _ rfl]
  cases d with
  | none => simp [x.notEqual_text]
  | some d₀ => simp [hd d₀ rfl]

/-- A column is read from the key of a group as it is read from a row of the group. -/
lemma StandsAtGroup.sees (hmark : x.HasNoMark) (hs : s.grouping = none) (ha : s.inAggregate = false)
    (hkeys : groupKeysFrom s [] (groupBy.map .identifier) = .ok keys)
    (hplain : s.HasPlainNames groupBy) {row : String → E} (hu : x.StandsAtGroup s groupBy row u)
    {i : Identifier} (hi : s.IsAmong groupBy i) :
    x.Sees (s.startGrouping (keys.map (·.1))) u i (x.columnAt s row i) := by
  have hrow : s.isRowContext = true := by simp [Scope.isRowContext, Scope.isGrouped, hs]
  obtain ⟨j, hj, hij⟩ := hi
  obtain ⟨b, c, hb, hname⟩ := (groupKeysFrom_columns hkeys).2.1 j hj
  have hi : s.owner i = .ok (b, c) := hij.trans hb
  obtain ⟨keys', hkeys', hu⟩ := hu
  rw [hkeys] at hkeys'
  cases hkeys'
  obtain ⟨key, t, ht, hkey, hu⟩ := hu (by rintro rfl; simp at hname)
  rw [run_keySteps] at hkey
  cases hkey
  refine .key (by simp [Scope.isRowContext, Scope.isGrouped, Scope.startGrouping, ha]) hi
    (by simpa [Scope.isGroupKey, Scope.isGrouped, Scope.groupKeys, Scope.startGrouping, ha]
      using hname) (run_groupKeySteps hu (lookup_entered hname fun k hk hkname => ?_) ?_)
  · -- Whichever column the key is taken from, it is the same property of the same table.
    obtain ⟨j', hj', b', c', hb', hkname', hv⟩ := isKeyOf_of_mem hkeys hk
    obtain ⟨hl, hp⟩ := hplain j' hj' b' c' hb'
    obtain ⟨hbname, hproperty⟩ := Scope.groupKey_injective hl hp (hkname'.symm.trans hkname)
    have hdata : x.columnAt s row j' = x.columnAt s row i := by
      simp [columnAt, hb', hi, hbname, hproperty]
    obtain ⟨v, hv', hrun⟩ := (ht.sees hrow (x := x) ⟨b', c', hb'⟩).columnSteps
    rw [hv] at hv'
    cases hv'
    rw [hdata] at hrun
    exact run_orMark hrun
  · intro d hd
    rw [columnAt, hi] at hd
    exact hmark _ _ d hd

/-- At a group the filter of an operand keeps what its data for a row of the group are true of. -/
lemma StandsAtGroup.filter (hmark : x.HasNoMark) (hs : s.grouping = none)
    (ha : s.inAggregate = false) (hkeys : groupKeysFrom s [] (groupBy.map .identifier) = .ok keys)
    (hplain : s.HasPlainNames groupBy) {row : String → E} (hu : x.StandsAtGroup s groupBy row u)
    {o : Operand}
    (ho : o.Evaluable (Operand.type s) (fun i => s.Owns i ∧ s.IsAmong groupBy i) (isBroken ·)) :
    ∃ w, o.filter (s.startGrouping (keys.map (·.1))) = .ok w ∧ x.run w u =
      u.keptIf ((o.data? x.toAlgebra (Operand.type s) (x.columnAt s row)).any x.isTrue) := by
  obtain ⟨v, hv⟩ := (ho.understood (fun i hi => hu.sees hmark hs ha hkeys hplain hi.2)
    (fun text ht => isGroupKey_of_isBroken hkeys hplain ht)
    (Operand.type_startGrouping s (keys.map (·.1)))).evaluates
  exact hv.filter

/-- Every row has a group. -/
lemma exists_standsAtGroup (hkeys : groupKeysFrom s [] (groupBy.map .identifier) = .ok keys)
    (row : String → E) : ∃ u : Traverser E D, x.StandsAtGroup s groupBy row u := by
  obtain ⟨t, ht⟩ := exists_standsAt (D := D) s row
  exact ⟨⟨.group (.entries _), []⟩, keys, hkeys, fun _ => ⟨_, t, ht, run_keySteps keys t, rfl⟩⟩

/-- An operand of such columns is a filter of groups. -/
lemma exists_groupFilter (hs : s.grouping = none) (ha : s.inAggregate = false)
    (hkeys : groupKeysFrom s [] (groupBy.map .identifier) = .ok keys)
    (hplain : s.HasPlainNames groupBy) {o : Operand}
    (ho : o.Evaluable (Operand.type s) (fun i => s.Owns i ∧ s.IsAmong groupBy i) (isBroken ·)) :
    ∃ w, o.filter (s.startGrouping (keys.map (·.1))) = .ok w := by
  -- The steps do not depend on the group, and some group of some graph shows that they exist.
  obtain ⟨u, hu⟩ := exists_standsAtGroup (D := Value)
    (x := Reference.executor Value.algebra Graph.point) hkeys fun _ => ()
  have hmark : (Reference.executor Value.algebra Graph.point).HasNoMark := fun _ _ _ => nofun
  obtain ⟨w, hw, -⟩ := hu.filter hmark hs ha hkeys hplain ho
  exact ⟨w, hw⟩

end Executor

variable {E D : Type} [DecidableEq E]

/-- **`HAVING` agrees with `WHERE`.** If a condition on the columns that rows are grouped by is a
filter of rows, then it is also a filter of groups, which keeps a group exactly if the other keeps
the rows of the group. -/
theorem having_agrees (x : Executor E D) (hmark : x.HasNoMark) {s s' : Scope}
    (hs : s.grouping = none) (ha : s.inAggregate = false) {groupBy : List Identifier}
    {grouping : Steps} (hg : grouped s (groupBy.map .identifier) = .ok (s', grouping))
    (hplain : s.HasPlainNames groupBy) {n : Node} (hcols : ∀ i ∈ n.columns, s.IsAmong groupBy i)
    {rowSteps : Steps} (hn : (Operand.ofNode n).bind (·.filter s) = .ok rowSteps) :
    ∃ groupSteps, (Operand.ofNode n).bind (·.filter s') = .ok groupSteps ∧
      ∀ (row : String → E) (u : Traverser E D), x.StandsAtGroup s groupBy row u →
        ∃ kept, x.run groupSteps u = u.keptIf kept ∧
          ∀ row' t, x.StandsAtGroup s groupBy row' u → Executor.StandsAt s row' t →
            x.run rowSteps t = t.keptIf kept := by
  have hrow : s.isRowContext = true := by simp [Scope.isRowContext, Scope.isGrouped, hs]
  obtain ⟨keys, hkeys, hg⟩ := Outcome.bind_eq_ok.1 hg
  cases hg
  obtain ⟨o, ho, hfilter⟩ := Outcome.bind_eq_ok.1 hn
  change o.filter s = .ok rowSteps at hfilter
  obtain ⟨v, hv⟩ := Operand.filterFrom_eq_ok hrow hfilter
  have he : o.Evaluable (Operand.type s) (fun i => s.Owns i ∧ s.IsAmong groupBy i) (isBroken ·) :=
    Operand.evaluable_ofNode hrow n o v (fun i hi h => ⟨h, hcols i hi⟩) ho hv
  obtain ⟨groupSteps, hgroup⟩ := Executor.exists_groupFilter hs ha hkeys hplain he
  refine ⟨groupSteps, by rw [ho]; exact hgroup, fun row u hu => ?_⟩
  have hrun {row : String → E} (hu : x.StandsAtGroup s groupBy row u) :
      x.run groupSteps u =
        u.keptIf ((o.data? x.toAlgebra (Operand.type s) (x.columnAt s row)).any x.isTrue) := by
    obtain ⟨w, hw, hr⟩ := hu.filter hmark hs ha hkeys hplain he
    rw [hgroup] at hw
    cases hw
    exact hr
  refine ⟨_, hrun hu, fun row' t hu' ht => ?_⟩
  obtain ⟨w, hw, hr⟩ := ht.filter (x := x) hrow he fun _ h => h.1
  rw [hfilter] at hw
  cases hw
  rw [hr, Traverser.keptIf_injective ((hrun hu').symm.trans (hrun hu))]

section

open Node People

/-- `(p.age > 18) = TRUE AND NOT q.name IS NULL` -/
def People.having : Node :=
  .apply .and
    [.apply (.comparison .equal)
      [.apply (.comparison .greater) [column "p" "age", number 18], .literal (.ofBool true)],
    .apply .not [.apply .isNull [column "q" "name"]]]

def People.groupColumns : List Identifier := [⟨["q", "name"], none⟩, ⟨["p", "age"], none⟩]

lemma People.hasNoMark : executor.HasNoMark := by
  intro e k d hd
  change Graph.people.property? e k = some d at hd
  unfold Graph.people at hd
  dsimp only at hd
  split at hd <;> cases hd <;> decide

/-- The group of the first person with the second is kept. -/
theorem People.having_adults :
    ∃ s' grouping groupSteps, grouped scope (groupColumns.map .identifier) = .ok (s', grouping) ∧
      (Operand.ofNode having).bind (·.filter s') = .ok groupSteps ∧
      ∃ u, executor.StandsAtGroup scope groupColumns (row 0 1) u ∧
        executor.run groupSteps u = [u] := by
  obtain ⟨s', grouping, hg⟩ :
      ∃ s' grouping, grouped scope (groupColumns.map .identifier) = .ok (s', grouping) :=
    ⟨_, _, rfl⟩
  obtain ⟨rowSteps, hn, hrow⟩ : ∃ steps, (Operand.ofNode having).bind (·.filter scope) = .ok steps ∧
      executor.run steps (traverser 0 1) = [traverser 0 1] := ⟨_, rfl, rfl⟩
  have hplain : scope.HasPlainNames groupColumns := by
    intro j hj b c hb
    simp only [groupColumns, List.mem_cons, List.not_mem_nil, or_false] at hj
    rcases hj with rfl | rfl <;> cases hb <;> decide
  have hcols : ∀ i ∈ having.columns, scope.IsAmong groupColumns i :=
    fun i hi => ⟨i, by revert i; decide, rfl⟩
  obtain ⟨groupSteps, hgroup, hrun⟩ := having_agrees executor hasNoMark (s := scope) rfl rfl hg
    hplain hcols hn
  obtain ⟨keys, hkeys, -⟩ := Outcome.bind_eq_ok.1 hg
  obtain ⟨u, hu⟩ := Executor.exists_standsAtGroup (x := executor) hkeys (row 0 1)
  obtain ⟨kept, hkept, hrows⟩ := hrun _ u hu
  have hsame := hrows _ _ hu (standsAt 0 1)
  rw [hrow] at hsame
  obtain rfl : true = kept := Traverser.keptIf_injective hsame
  exact ⟨s', grouping, groupSteps, hg, hgroup, u, hu, hkept⟩

end

end GraphSelect
