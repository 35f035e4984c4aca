import GraphSelect.Proofs.Clauses
import GraphSelect.Proofs.Joins
import GraphSelect.Proofs.Rules

/-!
The names that the steps of a query read.

A step that goes back to a place needs that place to be labelled, one that reads a key of a group
needs the rows to be grouped by it, and one that compares two entries of a map stands behind the map.
Labels and groups are made by the steps of the traversal itself, while names may be read at any depth
of its children. So what is kept while the clauses are put together is which labels and keys the
steps before them have made, and the steps of an expression read no others.
-/

namespace GraphSelect

/-! ### Steps at any depth -/

namespace Argument

mutual
/-- The child traversals in an argument. -/
def children : Argument → List Steps
  | .list as => childrenEach as
  | .predicate _ operand => children operand
  | .traversal ⟨_, steps⟩ => [steps]
  | .scalar _ | .order _ | .side _ => []

def childrenEach : List Argument → List Steps
  | [] => []
  | a :: as => children a ++ childrenEach as
end

mutual
@[simp] lemma children_ofValue (v : Value) : (ofValue v).children = [] := by
  cases v with
  | scalar c => rfl
  | list vs => exact childrenEach_ofValues vs

lemma childrenEach_ofValues (vs : List Value) : childrenEach (ofValues vs) = [] := by
  cases vs with
  | nil => rfl
  | cons v vs => simp [ofValues, childrenEach, children_ofValue v, childrenEach_ofValues vs]
end

end Argument

def Step.children (s : Step) : List Steps :=
  s.arguments.flatMap Argument.children

/-- A step of a traversal or of a child at any depth, and the steps before it in its own traversal. -/
inductive Within : Steps → Steps → Step → Prop
  | here (before : Steps) (s : Step) (after : Steps) : Within (before ++ s :: after) before s
  | inner {steps child before : Steps} {s t : Step} (ht : t ∈ steps) (hc : child ∈ t.children)
      (h : Within child before s) : Within steps before s

lemma within_append {v w before : Steps} {s : Step} (h : Within (v ++ w) before s) :
    Within v before s ∨ (∃ mid after, w = mid ++ s :: after ∧ before = v ++ mid) ∨
      ∃ t ∈ w, ∃ child ∈ t.children, Within child before s := by
  generalize hvw : v ++ w = steps at h
  cases h with
  | here _ _ after =>
    rcases List.append_eq_append_iff.1 hvw with ⟨mid, rfl, rfl⟩ | ⟨_ | ⟨s', mid⟩, rfl, hmid⟩
    · exact .inr (.inl ⟨mid, after, rfl, rfl⟩)
    · exact .inr (.inl ⟨[], after, hmid.symm, by simp⟩)
    · obtain ⟨rfl, -⟩ := List.cons.inj hmid
      exact .inl (.here before s mid)
  | inner ht hc h =>
    rcases List.mem_append.1 (hvw ▸ ht) with ht | ht
    · exact .inl (.inner ht hc h)
    · exact .inr (.inr ⟨_, ht, _, hc, h⟩)

lemma not_within_nil {before : Steps} {s : Step} : ¬ Within [] before s := by
  intro h
  generalize hnil : ([] : Steps) = steps at h
  cases h with
  | here => simp at hnil
  | inner ht => simp [← hnil] at ht

lemma within_concat {v before : Steps} {s t : Step} (h : Within (v ++ [t]) before s) :
    Within v before s ∨ (s = t ∧ before = v) ∨ ∃ child ∈ t.children, Within child before s := by
  rcases within_append h with h | ⟨_ | ⟨_, mid⟩, after, ht, rfl⟩ | ⟨t', ht, child, hc, hin⟩
  · exact .inl h
  · exact .inr (.inl ⟨(List.cons.inj ht).1.symm, by simp⟩)
  · simp at ht
  · obtain rfl := List.mem_singleton.1 ht
    exact .inr (.inr ⟨child, hc, hin⟩)

lemma within_singleton {before : Steps} {s t : Step} (h : Within [t] before s) :
    (s = t ∧ before = []) ∨ ∃ child ∈ t.children, Within child before s :=
  (within_concat (v := []) h).resolve_left not_within_nil

/-- What a step reads is there: behind the steps `top` of the whole traversal, and behind the steps
`before` of its own. -/
structure Step.FindsNames (top before : Steps) (s : Step) : Prop where
  side : ∀ d, s.name = "select" → .side d ∈ s.arguments → .group ∈ top
  /-- A name behind the keys of a group is one of those that its rows are grouped by. -/
  key : ∀ k, s.name = "select" → .text k ∈ s.arguments →
    before.getLast? = some (.selectSide .keys) →
    ∃ front keys inner back, top = front ++ .group :: .by_ (.project keys :: inner) :: back ∧
      .group ∉ back ∧ k ∈ keys
  /-- Any other name is a label. -/
  label : ∀ k, s.name = "select" → .text k ∈ s.arguments →
    before.getLast? ≠ some (.selectSide .keys) → .label k ∈ top
  entries : ∀ c, s = .whereEntries "lhs" c "rhs" →
    ∃ front left right, before = front ++ pair left right

/-- Every step finds the names it reads, at any depth. -/
def Traversal.IsWellScoped (t : Traversal) : Prop :=
  ∀ top s rest, t.steps = top ++ s :: rest →
    s.FindsNames top top ∧
      ∀ child ∈ s.children, ∀ before s', Within child before s' → s'.FindsNames top before

namespace Step.FindsNames

variable {top before before' : Steps} {s : Step}

lemma of_name (h : s.name ∉ ["select", "where"]) : s.FindsNames top before := by
  simp only [List.mem_cons, List.not_mem_nil, or_false, not_or] at h
  exact ⟨fun _ hs => absurd hs h.1, fun _ hs => absurd hs h.1, fun _ hs => absurd hs h.1,
    fun c hs => absurd (hs ▸ rfl) h.2⟩

lemma whereEmits (child : Steps) : (Step.whereEmits child).FindsNames top before := by
  refine ⟨?_, ?_, ?_, ?_⟩ <;> simp [Step.whereEmits, Step.whereEntries, Step.of]

lemma selectSide {d : EntrySide} (h : .group ∈ top) : (selectSide d).FindsNames top before := by
  refine ⟨fun _ _ _ => h, ?_, ?_, ?_⟩ <;>
    simp [Step.selectSide, Step.whereEntries, Step.of, Argument.text]

lemma select {names : List String} (h : ∀ n ∈ names, .label n ∈ top)
    (hb : before.getLast? ≠ some (.selectSide .keys)) : (select names).FindsNames top before := by
  refine ⟨?_, fun _ _ _ hk => absurd hk hb, fun k _ hk _ => h k ?_, ?_⟩
  · simp [Step.select, Step.of, Argument.text]
  · simpa [Step.select, Step.of, Argument.text] using hk
  · simp [Step.select, Step.whereEntries, Step.of]

lemma selectKey {k : String} {keys : List String} (hk : k ∈ keys)
    (h : ∃ front inner back, top = front ++ .group :: .by_ (.project keys :: inner) :: back ∧
      .group ∉ back) :
    (Step.select [k]).FindsNames top [.selectSide .keys] := by
  obtain ⟨front, inner, back, rfl, hback⟩ := h
  refine ⟨?_, fun k' _ hk' _ => ⟨front, keys, inner, back, rfl, hback, ?_⟩, ?_, ?_⟩
  · simp [Step.select, Step.of, Argument.text]
  · obtain rfl : k' = k := by simpa [Step.select, Step.of, Argument.text] using hk'
    exact hk
  · simp
  · simp [Step.select, Step.whereEntries, Step.of]

/-- Steps in front do no harm, unless they end where the keys of a group are. -/
lemma prepend (h : s.FindsNames top before) (hlast : before'.getLast? ≠ some (.selectSide .keys)) :
    s.FindsNames top (before' ++ before) := by
  have hiff : (before' ++ before).getLast? = some (.selectSide .keys) ↔
      before.getLast? = some (.selectSide .keys) := by
    rcases List.eq_nil_or_concat before with rfl | ⟨init, last, rfl⟩
    · simpa using hlast
    · simp
  refine ⟨h.side, fun k hs hk hb => h.key k hs hk (hiff.1 hb),
    fun k hs hk hb => h.label k hs hk (mt hiff.2 hb), fun c hc => ?_⟩
  obtain ⟨front, l, r, rfl⟩ := h.entries c hc
  exact ⟨before' ++ front, l, r, (List.append_assoc ..).symm⟩

end Step.FindsNames

/-! ### Steps that read given names -/

/-- Steps that read no names but the given labels and keys. -/
inductive Reads (labels keys : List String) : Steps → Prop
  | nil : Reads labels keys []
  | append {v w : Steps} (hv : Reads labels keys v) (hw : Reads labels keys w) :
      Reads labels keys (v ++ w)
  | step {s : Step} (hs : s.name ∉ ["select", "where", "group"])
      (h : ∀ child ∈ s.children, Reads labels keys child) : Reads labels keys [s]
  | whereEmits {v : Steps} (h : Reads labels keys v) : Reads labels keys [.whereEmits v]
  | entries (c : Comparison) {left right : Steps} (h : Reads labels keys (pair left right)) :
      Reads labels keys (pair left right ++ [.whereEntries "lhs" c "rhs"])
  | labels {names : List String} (h : ∀ n ∈ names, n ∈ labels) : Reads labels keys [.select names]
  | key {k : String} (h : k ∈ keys) : Reads labels keys (Scope.groupKeySteps k)
  | rows (h : keys ≠ []) : Reads labels keys [.selectSide .values]

/-- Steps that make the labels, and the keys if there are any. -/
structure Makes (top : Steps) (labels keys : List String) : Prop where
  label : ∀ l ∈ labels, .label l ∈ top
  key : keys ≠ [] → ∃ front inner back,
    top = front ++ .group :: .by_ (.project keys :: inner) :: back ∧ .group ∉ back

namespace Makes

variable {labels keys : List String} {top : Steps}

lemma append (h : Makes top labels keys) {more : Steps} (hmore : .group ∉ more) :
    Makes (top ++ more) labels keys := by
  refine ⟨fun l hl => List.mem_append_left _ (h.label l hl), fun hk => ?_⟩
  obtain ⟨front, inner, back, rfl, hback⟩ := h.key hk
  exact ⟨front, inner, back ++ more, by simp, by simp [hback, hmore]⟩

lemma group_mem (h : Makes top labels keys) (hk : keys ≠ []) : .group ∈ top := by
  obtain ⟨front, inner, back, rfl, -⟩ := h.key hk
  simp

end Makes

namespace Reads

variable {labels keys : List String} {top v w before : Steps} {s : Step}

/-- A step that reads no names itself, over child traversals. -/
lemma ofChildren (name : String) (hname : name ∉ ["select", "where", "group"]) (children : List Steps)
    (h : ∀ v ∈ children, Reads labels keys v) :
    Reads labels keys [.of name (children.map .child)] := by
  refine .step hname fun child hc => h child ?_
  simpa [Step.children, Step.of, Argument.children, Argument.child, List.flatMap_map] using hc

/-- A step that reads no names, without child traversals. -/
lemma leaf (name : String) (hname : name ∉ ["select", "where", "group"]) {as : List Argument}
    (h : ∀ a ∈ as, a.children = []) : Reads labels keys [.of name as] := by
  refine .step hname fun child hc => ?_
  obtain ⟨a, ha, hc⟩ := List.mem_flatMap.1 hc
  simp [h a ha] at hc

lemma select_ne_selectSide (names : List String) (d : EntrySide) :
    Step.select names ≠ .selectSide d := by
  cases names <;> simp [Step.select, Step.selectSide, Step.of, Argument.text]

/-- They do not end where the keys of a group are. -/
lemma getLast?_ne (h : Reads labels keys v) : v.getLast? ≠ some (.selectSide .keys) := by
  induction h with
  | nil => simp
  | @append v w _ _ hv hw =>
    rcases List.eq_nil_or_concat w with rfl | ⟨init, last, rfl⟩
    · simpa using hv
    · simpa using hw
  | step hs =>
    rintro h
    simp only [List.getLast?_singleton, Option.some.injEq] at h
    subst h
    exact hs (by decide)
  | labels => simpa using select_ne_selectSide _ _
  | _ => simp [Step.whereEmits, Step.whereEntries, Step.selectSide, Step.of, Scope.groupKeySteps,
      Step.satisfies]

/-- They do not group. -/
lemma group_notMem (h : Reads labels keys v) : .group ∉ v := by
  induction h with
  | append _ _ hv hw => simp [hv, hw]
  | step hs =>
    rintro h
    rw [← List.mem_singleton.1 h] at hs
    exact hs (by decide)
  | _ => simp [pair, Scope.groupKeySteps, Step.whereEmits, Step.whereEntries, Step.select,
      Step.selectSide, Step.project, Step.by_, Step.group, Step.satisfies, Step.of]

/-- Steps that read only what was made find it. -/
theorem findsNames (h : Reads labels keys v) (ht : Makes top labels keys)
    (hw : Within v before s) : s.FindsNames top before := by
  induction h generalizing before s with
  | nil => exact absurd hw not_within_nil
  | @append v w hv hw' ihv ihw =>
    rcases within_append hw with h | ⟨mid, after, rfl, rfl⟩ | ⟨t, h, child, hc, hin⟩
    · exact ihv h
    · exact (ihw (.here mid s after)).prepend hv.getLast?_ne
    · exact ihw (.inner h hc hin)
  | @step s' hs _ ih =>
    rcases within_singleton hw with ⟨rfl, rfl⟩ | ⟨child, hc, hin⟩
    · exact .of_name (mt (List.mem_append_left ["group"]) hs)
    · exact ih child hc hin
  | @whereEmits v _ ih =>
    rcases within_singleton hw with ⟨rfl, rfl⟩ | ⟨child, hc, hin⟩
    · exact .whereEmits v
    · obtain rfl : child = v := by
        simpa [Step.children, Step.whereEmits, Step.of, Argument.children, Argument.child] using hc
      exact ih hin
  | @entries c left right _ ih =>
    rcases within_concat hw with h | ⟨rfl, rfl⟩ | ⟨child, hc, -⟩
    · exact ih h
    · refine ⟨?_, ?_, ?_, fun _ _ => ⟨[], left, right, rfl⟩⟩ <;>
        simp [Step.whereEntries, Step.of]
    · simp [Step.children, Step.whereEntries, Step.of, Argument.children, Argument.text] at hc
  | @labels names h =>
    rcases within_singleton hw with ⟨rfl, rfl⟩ | ⟨child, hc, -⟩
    · exact .select (fun n hn => ht.label n (h n hn)) (by simp)
    · simp [Step.children, Step.select, Step.of, Argument.children, Argument.text] at hc
  | @key k h =>
    -- Behind the keys of the group a name is a key, not a label.
    rcases within_concat (v := [_, _]) hw with hw | ⟨rfl, rfl⟩ | ⟨child, hc, -⟩
    · rcases within_concat (v := [_]) hw with hw | ⟨rfl, rfl⟩ | ⟨child, hc, -⟩
      · rcases within_singleton hw with ⟨rfl, rfl⟩ | ⟨child, hc, -⟩
        · exact .selectSide (ht.group_mem (List.ne_nil_of_mem h))
        · simp [Step.children, Step.selectSide, Step.of, Argument.children] at hc
      · exact .selectKey h (ht.key (List.ne_nil_of_mem h))
      · simp [Step.children, Step.select, Step.of, Argument.children, Argument.text] at hc
    · exact .of_name (by decide)
    · simp [Step.children, Step.satisfies, Step.of, Argument.children] at hc
  | rows h =>
    rcases within_singleton hw with ⟨rfl, rfl⟩ | ⟨child, hc, -⟩
    · exact .selectSide (ht.group_mem h)
    · simp [Step.children, Step.selectSide, Step.of, Argument.children] at hc

end Reads

/-! ### The steps of expressions -/

section

variable {labels keys : List String} {v w f yes no : Steps}

namespace Reads

lemma constant (x : Value) : Reads labels keys [.constant x] :=
  leaf _ (by decide) (by simp)

lemma satisfies (c : Comparison) (x : Value) : Reads labels keys [.satisfies c x] :=
  leaf _ (by decide) (by simp [Argument.children])

lemma math (expression : String) : Reads labels keys [.math expression] :=
  leaf _ (by decide) (by simp [Argument.text, Argument.children])

lemma dedup : Reads labels keys [.dedup] := leaf _ (by decide) (by simp)

lemma reduce (a : Aggregate) : Reads labels keys [.reduce a] := by
  cases a <;> exact leaf _ (by decide) (by simp)

lemma not (h : Reads labels keys v) : Reads labels keys [.not v] :=
  ofChildren _ (by decide) [v] (by simpa using h)

lemma truthOf (h : Reads labels keys v) : Reads labels keys (truthOf v) :=
  ofChildren _ (by decide) [v, [.constant (.bool true)], [.constant (.bool false)]]
    (by simpa [constant] using h)

lemma coalesce (h : Reads labels keys v) (x : Value) :
    Reads labels keys [.coalesce v [.constant x]] :=
  ofChildren _ (by decide) [v, [.constant x]] (by simpa [constant] using h)

lemma by_ (h : Reads labels keys v) : Reads labels keys [.by_ v] :=
  ofChildren _ (by decide) [v] (by simpa using h)

lemma project (names : List String) : Reads labels keys [.project names] :=
  leaf _ (by decide) (by simp [Argument.text, Argument.children])

lemma each (h : ∀ s ∈ v, Reads labels keys [s]) : Reads labels keys v := by
  induction v with
  | nil => exact .nil
  | cons s v ih =>
    obtain ⟨hs, hv⟩ := List.forall_mem_cons.1 h
    exact .append hs (ih hv)

lemma byOrdered (h : Reads labels keys v) (o : SortOrder) :
    Reads labels keys [.byOrdered v o] := by
  refine .step (show "by" ∉ _ by decide) fun child hc => ?_
  obtain rfl : child = v := by
    simpa [Step.children, Step.byOrdered, Step.of, Argument.children, Argument.child] using hc
  exact h

lemma pair (hv : Reads labels keys v) (hw : Reads labels keys w) : Reads labels keys (pair v w) :=
  .append (.append (project _) hv.by_) hw.by_

lemma holds (h : Reads labels keys v) : Reads labels keys (holds v) :=
  .whereEmits (.append h (satisfies _ _))

end Reads

/-- The steps read the labels and the group keys of the scope alone. -/
def Scope.Admits (s : Scope) (v : Steps) : Prop := Reads s.labels s.groupKeys v

variable {s : Scope} {i : Identifier} {b : Binding} {c : Column}

lemma Scope.name_mem_labels (h : s.owner i = .ok (b, c)) : b.name ∈ s.labels :=
  List.mem_map_of_mem (Scope.mem_of_owner h)

lemma Scope.admits_columnSteps (h : s.columnSteps i = .ok v) : s.Admits v := by
  obtain ⟨⟨b, c⟩, ho, h⟩ := Outcome.bind_eq_ok.1 h
  have hvalues : s.Admits [.values c.property] :=
    .leaf _ (by decide) (by simp [Argument.text, Argument.children])
  dsimp only at h
  split at h
  · cases h
    unfold Scope.propertySteps
    split
    · exact hvalues
    · exact .append (.labels (List.forall_mem_singleton.2 (Scope.name_mem_labels ho))) hvalues
  · split at h
    · next hkey =>
      cases h
      simp only [Scope.isGroupKey, Bool.and_eq_true, List.contains_iff_mem] at hkey
      exact .key hkey.2
    · simp at h

lemma Scope.admits_columnFilter {filter : String → Step}
    (hf : ∀ property, s.Admits [filter property]) (h : Operand.columnFilter s i filter = .ok v) :
    s.Admits v := by
  obtain ⟨⟨b, c⟩, ho, rfl⟩ := Outcome.map_eq_ok.1 h
  change s.Admits (s.elementFilter b.name [filter c.property])
  unfold Scope.elementFilter
  split
  · exact hf _
  · exact .whereEmits (.append (.labels (List.forall_mem_singleton.2 (Scope.name_mem_labels ho))) (hf _))

lemma Scope.admits_groupRowSteps (s : Scope) : s.Admits s.groupRowSteps := by
  have hunfold : s.Admits [.unfold] := .leaf _ (by decide) (by simp)
  unfold Scope.groupRowSteps
  split
  · exact hunfold
  · next hkeys => exact .append (.rows (by simpa using hkeys)) hunfold

/-- The steps of an expression read nothing else. -/
theorem Operand.Becomes.admits {use : Use} {o : Operand} (h : Becomes use s o v) :
    s.Admits v := by
  induction h with
  | column h => exact Scope.admits_columnSteps h
  | constant l => exact .constant _
  | isNull _ _ ih | isNotNull _ _ ih | condition _ ih | read _ ih => exact ih
  | guardColumn _ ih | guardSkip _ ih => exact ih
  | not _ _ _ ihg ih => exact .append ihg ih.not
  | negate _ _ ih => exact .append ih (.math _)
  | @count s => exact .append s.admits_groupRowSteps (.reduce _)
  | @aggregate s c _ _ a _ _ _ _ _ _ ih =>
    refine .append (.append (.append s.admits_groupRowSteps ih) ?_) (.reduce a)
    split
    · exact .dedup
    · exact .nil
  | compareColumn _ _ _ h =>
    refine Scope.admits_columnFilter (fun _ => .leaf _ (by decide) ?_) h
    simp [Argument.text, Argument.children]
  | compareConstant _ _ _ ih => exact .whereEmits (.append ih (.satisfies _ _))
  | compare _ _ _ ihx ihy => exact .whereEmits (.entries _ (ihx.pair ihy))
  | and _ _ _ ihx ihy | or _ _ _ ihx ihy =>
    exact Reads.ofChildren _ (by decide) [_, _] (by simpa using ⟨ihx, ihy⟩)
  | arithmetic _ _ _ ihx ihy => exact .append (ihx.pair ihy) (.math _)
  | cast _ _ _ _ ih =>
    refine .append ih ?_
    split
    · exact .leaf _ (by decide) (by simp)
    · exact .nil
  | key h =>
    simp only [Scope.isGroupKey, Bool.and_eq_true, List.contains_iff_mem] at h
    exact .key h.2
  | truth _ ih => exact ih.truthOf
  | holds _ ih => exact ih.holds
  | has _ h | hasNot _ h =>
    refine Scope.admits_columnFilter (fun _ => .leaf _ (by decide) ?_) h
    simp [Argument.text, Argument.children]
  | present _ ih => exact .whereEmits ih
  | absent _ ih => exact ih.not
  | guardNone => exact .nil
  | guardMore _ _ ih ihg => exact .append ih ihg

end

/-! ### The steps of a whole traversal -/

/-- Steps of a whole traversal that find what they read and make labels and keys, so that more steps
may read these. -/
structure Scoped (top : Steps) (labels keys : List String) : Prop extends Makes top labels keys where
  found : Traversal.IsWellScoped ⟨none, top⟩
  last : top.getLast? ≠ some (.selectSide .keys)

lemma Traversal.IsWellScoped.append {top v : Steps} (h : IsWellScoped ⟨none, top⟩)
    (hv : ∀ mid s rest, v = mid ++ s :: rest → s.FindsNames (top ++ mid) (top ++ mid) ∧
      ∀ child ∈ s.children, ∀ before s', Within child before s' →
        s'.FindsNames (top ++ mid) before) :
    IsWellScoped ⟨none, top ++ v⟩ := by
  intro front s rest heq
  rcases List.append_eq_append_iff.1 heq with ⟨mid, rfl, rfl⟩ | ⟨_ | ⟨s', mid⟩, rfl, hmid⟩
  · exact hv mid s rest rfl
  · simpa using hv [] s rest hmid.symm
  · obtain ⟨rfl, -⟩ := List.cons.inj hmid
    exact h front s mid rfl

namespace Scoped

variable {top v : Steps} {labels keys : List String}

lemma nil : Scoped [] [] [] :=
  ⟨⟨by simp, by simp⟩, fun front s rest h => by simp at h, by simp⟩

lemma append (h : Scoped top labels keys) (hv : Reads labels keys v) :
    Scoped (top ++ v) labels keys := by
  refine ⟨h.toMakes.append hv.group_notMem, h.found.append ?_, ?_⟩
  · rintro mid s rest rfl
    have hmakes : Makes (top ++ mid) labels keys :=
      h.toMakes.append fun hmem => hv.group_notMem (List.mem_append_left _ hmem)
    exact ⟨(hv.findsNames hmakes (.here mid s rest)).prepend h.last,
      fun child hc before s' hin => hv.findsNames hmakes (.inner (by simp) hc hin)⟩
  · rcases List.eq_nil_or_concat v with rfl | ⟨init, last, rfl⟩
    · simpa using h.last
    · simpa using hv.getLast?_ne

lemma addLabel (h : Scoped top labels keys) (name : String) :
    Scoped (top ++ [.label name]) (labels ++ [name]) keys := by
  have hstep := h.append (v := [.label name])
    (.leaf _ (by decide) (by simp [Argument.text, Argument.children]))
  refine ⟨⟨fun l hl => ?_, hstep.key⟩, hstep.found, hstep.last⟩
  rcases List.mem_append.1 hl with hl | hl
  · exact hstep.label l hl
  · simp [List.mem_singleton.1 hl]

/-- A group makes the keys that its first map is projected to. -/
lemma group (h : Scoped top labels []) {keys : List (String × Steps)}
    (hkeys : ∀ k ∈ keys, Reads labels [] k.2) :
    Scoped (top ++ [.group, .by_ (keySteps keys), .by_ [.fold], .unfold]) labels
      (keys.map (·.1)) := by
  have hfold : Reads labels [] [.fold] := .leaf _ (by decide) (by simp)
  have hkeySteps : Reads labels [] (keySteps keys) :=
    .append (.project _) (.each (List.forall_mem_map.2 fun k hk => ((hkeys k hk).coalesce _).by_))
  have hgroup : Scoped (top ++ [.group]) labels [] := by
    refine ⟨⟨fun l hl => List.mem_append_left _ (h.label l hl), by simp⟩, h.found.append ?_, ?_⟩
    · rintro (_ | ⟨_, mid⟩) s rest hs
      · obtain ⟨rfl, -⟩ := List.cons.inj hs
        exact ⟨.of_name (by decide), by simp [Step.children, Step.group, Step.of]⟩
      · simp at hs
    · simp [Step.group, Step.selectSide, Step.of]
  have hunfold : Reads labels [] [.unfold] := .leaf _ (by decide) (by simp)
  have hall := hgroup.append (.append (.append hkeySteps.by_ hfold.by_) hunfold)
  rw [List.append_assoc] at hall
  refine ⟨⟨hall.label, fun _ => ⟨top, _, [.by_ [.fold], .unfold], rfl, ?_⟩⟩, hall.found, hall.last⟩
  simp [Step.group, Step.by_, Step.unfold, Step.of]

end Scoped

/-! ### The clauses of a query -/

section

variable {top v : Steps} {s s' : Scope}

/-- Steps of a whole traversal that make what a scope knows. -/
def Scope.IsMadeBy (s : Scope) (top : Steps) : Prop := Scoped top s.labels s.groupKeys

lemma Scope.isMadeBy_initial {c : Catalog} : (initial c).IsMadeBy [] := Scoped.nil

lemma Scope.IsMadeBy.append (h : s.IsMadeBy top) (hv : s.Admits v) : s.IsMadeBy (top ++ v) :=
  Scoped.append h hv

lemma Scope.IsMadeBy.bind (h : s.IsMadeBy top) {name : String} {table : Table}
    (hs : s.bind name table = .ok s') {v : Steps} (hv : s.Admits v) :
    s'.IsMadeBy (top ++ (v ++ [.label name])) := by
  obtain ⟨-, rfl⟩ := Scope.bind_eq_ok hs
  have := Scoped.addLabel (h.append hv) name
  simpa [IsMadeBy, Scope.labels, Scope.groupKeys] using this

lemma Scope.admits_hasLabel (label : String) : s.Admits [.hasLabel label] :=
  .leaf _ (by decide) (by simp [Argument.text, Argument.children])

lemma isMadeBy_tableSteps {t : TableRef} (h : s.IsMadeBy top)
    (ht : tableSteps s t = .ok (s', v)) : s'.IsMadeBy (top ++ v) := by
  obtain ⟨table, -, hs, rfl⟩ := tableSteps_cases ht
  refine h.bind hs (v := [_, _]) (.append (v := [_]) ?_ (Scope.admits_hasLabel _))
  split <;> exact .leaf _ (by decide) (by simp)

lemma isMadeBy_joinSteps {t : TableRef} {condition : Option Node} (h : s.IsMadeBy top)
    (ht : joinSteps s t condition = .ok (s', v)) : s'.IsMadeBy (top ++ v) := by
  obtain ⟨b, table, w, hb, -, -, -, hs, rfl⟩ := joinSteps_cases ht
  have hback : s.Admits (if s.currentLabel? = some b.name then [] else [.select [b.name]]) := by
    split
    · exact .nil
    · exact .labels (List.forall_mem_singleton.2 (List.mem_map_of_mem hb))
  have hwalk : s.Admits [w.step] := by
    obtain ⟨edge, _ | _⟩ := w <;>
      exact .leaf _ (by decide) (by simp [Argument.text, Argument.children])
  have := h.bind hs (.append hback (.append hwalk (Scope.admits_hasLabel table.label)))
  simpa using this

theorem isMadeBy_sourceSteps {n : Node} (h : s.IsMadeBy top)
    (hn : sourceSteps s n = .ok (s', v)) : s'.IsMadeBy (top ++ v) := by
  induction n using sourceSteps.induct generalizing s' v with
  | case1 t => exact isMadeBy_tableSteps h hn
  | case2 left t condition ih =>
    obtain ⟨⟨s₁, before⟩, hleft, hn⟩ := Outcome.bind_eq_ok.1 hn
    obtain ⟨⟨s₂, steps⟩, hjoin, hn⟩ := Outcome.bind_eq_ok.1 hn
    cases hn
    simpa using isMadeBy_joinSteps (ih hleft) hjoin
  | _ => simp_all [sourceSteps]

/-- The scope of the rows that have been read has no groups. -/
lemma grouping_sourceSteps {n : Node} (hn : sourceSteps s n = .ok (s', v)) :
    s'.grouping = s.grouping ∧ s'.inAggregate = s.inAggregate := by
  have hbind {s s' : Scope} {name : String} {table : Table} (hs : s.bind name table = .ok s') :
      s'.grouping = s.grouping ∧ s'.inAggregate = s.inAggregate := by
    obtain ⟨-, rfl⟩ := Scope.bind_eq_ok hs
    exact ⟨rfl, rfl⟩
  induction n using sourceSteps.induct generalizing s' v with
  | case1 t =>
    obtain ⟨table, -, hs, -⟩ := tableSteps_cases hn
    exact hbind hs
  | case2 left t condition ih =>
    obtain ⟨⟨s₁, before⟩, hleft, hn⟩ := Outcome.bind_eq_ok.1 hn
    obtain ⟨⟨s₂, steps⟩, hjoin, hn⟩ := Outcome.bind_eq_ok.1 hn
    cases hn
    obtain ⟨b, table, w, -, -, -, -, hs, -⟩ := joinSteps_cases hjoin
    obtain ⟨hg, ha⟩ := ih hleft
    exact ⟨(hbind hs).1.trans hg, (hbind hs).2.trans ha⟩
  | _ => simp_all [sourceSteps]

lemma isRowContext_sourceSteps {c : Catalog} {n : Node}
    (hn : sourceSteps (.initial c) n = .ok (s, v)) : s.isRowContext = true := by
  simp [Scope.isRowContext, Scope.isGrouped, (grouping_sourceSteps hn).1, Scope.initial]

lemma Scope.admits_filters {n : Option Node} (h : Filters s n v) : s.Admits v := by
  cases h with
  | none => exact .nil
  | some _ hv => exact (Operand.becomes_of_filter hv).admits

lemma isMadeBy_grouped {groupBy : List Node} (h : s.IsMadeBy top) (hs : s.grouping = none)
    (hg : grouped s groupBy = .ok (s', v)) : s'.IsMadeBy (top ++ v) := by
  obtain ⟨keys, hkeys, hg⟩ := Outcome.bind_eq_ok.1 hg
  cases hg
  have hnone : s.groupKeys = [] := by simp [Scope.groupKeys, hs]
  have hvalues : ∀ k ∈ keys, Reads s.labels [] k.2 := by
    intro k hk
    obtain ⟨n, o, hn⟩ := (exists_isKey hkeys hk).resolve_left List.not_mem_nil
    rw [← hnone]
    exact (Operand.becomes_of_value hn.value).admits
  have hgather : s.IsMadeBy
      (top ++ if s.isSingleTable then [] else [.select s.labels]) := by
    split
    · simpa using h
    · exact h.append (.labels fun _ => id)
  unfold groupingSteps
  rw [← List.append_assoc]
  unfold Scope.IsMadeBy at hgather ⊢
  rw [hnone] at hgather
  by_cases hempty : keys = []
  · subst hempty
    exact hgather.append (.leaf _ (by decide) (by simp))
  · rw [if_neg (c := keys.isEmpty) (by simpa using hempty)]
    exact hgather.group hvalues

lemma Scope.admits_orderSteps {items : List Item} {keys : List (SortKey Node)}
    (h : orderSteps s items keys = .ok v) : s.Admits v := by
  unfold orderSteps at h
  split at h
  · cases h
    exact .nil
  · obtain ⟨steps, hsteps, h⟩ := Outcome.bind_eq_ok.1 h
    cases h
    refine .append (v := [.order]) (.leaf _ (by decide) (by simp))
      (.each fun step hstep => ?_)
    obtain ⟨key, -, hkey⟩ := (Outcome.mapM_eq_ok hsteps).1 step hstep
    obtain ⟨o, -, hkey⟩ := Outcome.bind_eq_ok.1 hkey
    obtain ⟨value, hvalue, hkey⟩ := Outcome.bind_eq_ok.1 hkey
    cases hkey
    exact Reads.byOrdered (Reads.coalesce (Operand.becomes_of_value hvalue).admits _) _

lemma Scope.admits_projectionSteps {items : List Item} (h : projectionSteps s items = .ok v) :
    s.Admits v := by
  obtain ⟨values, hvalues, h⟩ := Outcome.bind_eq_ok.1 h
  cases h
  refine .append (.project _) (.each (List.forall_mem_map.2 fun v hv =>
    Reads.by_ (Reads.coalesce ?_ _)))
  obtain ⟨i, -, hi⟩ := (Outcome.mapM_eq_ok hvalues).1 v hv
  exact (Operand.becomes_of_value hi).admits

lemma Scope.admits_limitSteps (s : Scope) (limit : Option Literal) (maxRows : Option Int) :
    s.Admits (limitSteps limit maxRows) := by
  unfold limitSteps
  cases effectiveLimit limit maxRows with
  | none => exact .nil
  | some n => exact .leaf _ (by decide) (by simp)

end

theorem isWellScoped_of_plan {c : Catalog} {source : Option String} {maxRows : Option Int}
    {q : Select} {p : Plan} (h : plan c source maxRows q = .ok p) : p.traversal.IsWellScoped := by
  obtain ⟨x, hx, hp, -⟩ := plan_eq_ok h
  obtain ⟨n, -, hn⟩ := hx.source
  have hsource : x.row.IsMadeBy x.source := isMadeBy_sourceSteps Scope.isMadeBy_initial hn
  have hfilter := hsource.append (Scope.admits_filters hx.filter)
  have hgrouping : x.result.IsMadeBy (x.source ++ x.filter ++ x.grouping) := by
    have hg := hx.grouping
    split at hg
    · exact isMadeBy_grouped hfilter (grouping_sourceSteps hn).1 hg
    · simpa [hg.1, hg.2] using hfilter
  have hprojection := Scope.admits_projectionSteps hx.projection
  have hlimit := x.result.admits_limitSteps q.limit maxRows
  have hall : x.result.IsMadeBy (x.steps q maxRows) := by
    refine ((hgrouping.append (Scope.admits_filters hx.having)).append
      (Scope.admits_orderSteps hx.sorting)).append ?_
    split
    · exact .append (.append hprojection .dedup) hlimit
    · exact .append hlimit hprojection
  rw [hp]
  exact hall.found

/-- **Every step of a converted query finds the names it reads.** A step that goes back to a label
stands behind the one that makes it, the keys of a group are read only where rows are grouped by
them, and two entries of a map are compared only where the map has just been made. -/
theorem convert_isWellScoped (x : Converter) {text : String} {p : Plan}
    (h : x.convert text = .ok p) : p.traversal.IsWellScoped := by
  obtain ⟨q, q', -, -, hp⟩ := Converter.convert_eq_ok h
  exact isWellScoped_of_plan hp

def People.converter : Converter := ⟨catalog, some "g", none⟩

/-- Two tables, a comparison of their columns, and a condition on the key of a group. -/
def People.grouped : String :=
  "SELECT p.age FROM person p JOIN person q ON p.age = q.age WHERE p.name < q.name " ++
    "GROUP BY p.age HAVING p.age > 3"

theorem People.finds_names :
    ∃ p, converter.convert People.grouped = .ok p ∧ p.traversal.IsWellScoped := by
  obtain ⟨p, hp⟩ := Converter.exists_of_isOk
    (show (converter.convert People.grouped).isOk by decide +kernel)
  exact ⟨p, hp, convert_isWellScoped _ hp⟩

end GraphSelect
