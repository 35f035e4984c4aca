import GraphSelect.Workbench.InPlace
import Mathlib.Tactic.Common

/-!
Additions in place are whole or none.

Planning in place appends the same steps that an expression becomes, or fails as it does. Where
several things are appended one after the other, the later ones can fail when the first are there
already. That happens on traversals only that have been begun for it and are given up then; whatever
is appended to the traversal of the caller is appended at once, behind all that can fail. The scope
in which the argument of an aggregate is planned is left again on either way.
-/

namespace GraphSelect.Procedure

variable {s : Scope} {x y : Outcome Steps} {p q : Procedure Unit} {b d : Bool}

/-- In a scope some work appends the steps that there are, and fails if there are none. It changes
nothing else, except that work that is not whole may have appended something before it fails. -/
def Appends (whole : Bool) (s : Scope) (x : Outcome Steps) (p : Procedure Unit) : Prop :=
  ∀ w : Workbench, w.scope = s → match x with
    | .ok steps => p w = .ok () { w with traversal := w.traversal.append steps }
    | .error e => ∃ t, p w = .error e { w with traversal := t } ∧ (whole = true → t = w.traversal)

/-! ### What work is made of -/

lemma appends_take (b : Bool) (steps : Steps) : Appends b s (.ok steps) (take steps) :=
  fun _ _ => rfl

lemma appends_none (b : Bool) : Appends b s (.ok []) (pure ()) := by
  intro w _
  simp only [Traversal.append, List.append_nil]
  rfl

lemma appends_fault (b : Bool) (f : Fault) : Appends b s (.error (.fault f)) (fault f) :=
  fun w _ => ⟨w.traversal, rfl, fun _ => rfl⟩

lemma Appends.draft (h : Appends b s x p) : Appends false s x p := by
  intro w hw
  have hp := h w hw
  cases x with
  | ok => exact hp
  | error =>
    obtain ⟨t, ht, -⟩ := hp
    exact ⟨t, ht, nofun⟩

/-- What is appended first stays where the rest fails. -/
lemma Appends.seq (hp : Appends b s x p) (hq : Appends d s y q) :
    Appends false s (do return (← x) ++ (← y)) (do p; q) := by
  intro w hw
  have hp := hp w hw
  cases x with
  | error e =>
    obtain ⟨t, ht, -⟩ := hp
    exact ⟨t, by simp only [bind, EStateM.bind, ht], nofun⟩
  | ok v =>
    have hq := hq { w with traversal := w.traversal.append v } hw
    cases y with
    | error e =>
      obtain ⟨t, ht, -⟩ := hq
      exact ⟨t, by simp only [bind, EStateM.bind, hp, ht], nofun⟩
    | ok u =>
      simp only [bind, EStateM.bind, hp, hq]
      simp [Traversal.append, Except.bind]

lemma appends_scope {f : Scope → Procedure Unit} (h : Appends b s x (f s)) :
    Appends b s x (do f (← scope)) := by
  rintro w rfl
  exact h w rfl

lemma appends_ofOutcome {α : Type} {y : Outcome α} {f : α → Procedure Unit}
    {x : α → Outcome Steps} (h : ∀ a, Appends b s (x a) (f a)) :
    Appends b s (y >>= x) (do f (← ofOutcome y)) := by
  intro w hw
  cases y with
  | ok a => exact h a w hw
  | error e => exact ⟨w.traversal, rfl, fun _ => rfl⟩

/-- Nothing that fails on a traversal of its own is seen on that of the caller. -/
lemma Appends.bind_apart (hp : Appends b s y p) {f : Steps → Procedure Unit}
    {x : Steps → Outcome Steps} (h : ∀ v, Appends d s (x v) (f v)) :
    Appends d s (y >>= x) (do f (← apart p)) := by
  intro w hw
  have hp := hp { w with traversal := .start none } hw
  cases y with
  | ok v =>
    have hapart : apart p w = .ok v w := by
      simp only [apart, hp]
      rfl
    simp only [bind, EStateM.bind, hapart]
    exact h v w hw
  | error e =>
    obtain ⟨t, ht, -⟩ := hp
    have hapart : apart p w = .error e w := by
      simp only [apart, ht]
    exact ⟨w.traversal, by simp only [bind, EStateM.bind, hapart], fun _ => rfl⟩

lemma Appends.take_apart (hp : Appends b s y p) (f : Steps → Steps) :
    Appends true s (y.map f) (do take (f (← apart p))) := by
  have h := hp.bind_apart (d := true) (x := fun v => .ok (f v)) fun v => appends_take true (f v)
  cases y <;> exact h

/-- The rows of a group are left where they have been entered. -/
lemma Appends.amongRows (hs : s.inAggregate = false) (hp : Appends b s.aggregated x p) :
    Appends b s x (amongRows p) := by
  intro w hw
  have hp := hp (w.setAggregate true) (by rw [← hw]; rfl)
  have hleft (t : Traversal) : ({ w.setAggregate true with traversal := t } : Workbench).setAggregate
      false = { w with traversal := t } := by
    obtain ⟨⟨c, bs, g, _⟩, _, _⟩ := w
    obtain rfl := hs ▸ congrArg Scope.inAggregate hw
    rfl
  cases x with
  | ok v =>
    simp only [Procedure.amongRows, hp, hleft]
    rfl
  | error e =>
    obtain ⟨t, ht, hwhole⟩ := hp
    exact ⟨t, by simp only [Procedure.amongRows, ht, hleft], hwhole⟩

/-! ### Uses of operands -/

lemma appends_columnFilter (b : Bool) (i : Identifier) (f : String → Step) :
    Appends b s (Operand.columnFilter s i f) (columnFilter i f) := by
  have h : Appends b s (s.owner i >>= fun owned =>
      .ok (s.elementFilter owned.1.name [f owned.2.property])) (columnFilter i f) :=
    appends_scope (appends_ofOutcome fun _ => appends_take b _)
  rw [Operand.columnFilter]
  cases hi : s.owner i <;> simpa [hi] using h

lemma appends_column (b : Bool) (i : Identifier) : Appends b s (s.columnSteps i) (column i) := by
  refine appends_scope (appends_ofOutcome fun owned => ?_)
  obtain ⟨table, c⟩ := owned
  dsimp only
  split
  · exact appends_take b _
  · split
    · exact appends_take b _
    · exact appends_fault b _

section

variable {o o' : Operand} (h : Appends true s x p)
include h

lemma Appends.valueFrom : Appends true s (o.valueFrom s x) (valueFrom p o) := by
  cases o with
  | apply c text label os =>
    refine appends_scope ?_
    rw [Operand.valueFrom]
    split
    · exact appends_take _ _
    · split
      · exact h.take_apart truthOf
      · exact h
  | _ => exact h

lemma Appends.filterFrom : Appends true s (o.filterFrom s x) (filterFrom p o) := by
  cases o with
  | apply c text label os =>
    simp only [Operand.filterFrom, Procedure.filterFrom]
    split
    · exact h
    · exact h.valueFrom.take_apart holds
  | _ => exact h.take_apart holds

/-- A test of a column of a row looks at the property, and any other at the value. -/
lemma Appends.testFrom {onColumn : String → Step} {onValue : Steps → Step} {z : Outcome Steps}
    (hcolumn : ∀ i, o = .column i → s.isRowContext = true →
      z = Operand.columnFilter s i onColumn)
    (hvalue : (∀ i, o = .column i → s.isRowContext = false) →
      z = (o.valueFrom s x).map fun v => [onValue v]) :
    Appends true s z (testFrom p onColumn onValue o) := by
  refine appends_scope ?_
  split
  · next i hs =>
    rw [hcolumn i rfl hs]
    exact appends_columnFilter _ _ _
  · next hother =>
    rw [hvalue fun i hi => by simpa using fun hs => hother i hi hs]
    exact h.valueFrom.take_apart fun v => [onValue v]

lemma Appends.presenceFrom : Appends true s (o.presenceFrom s x) (presenceFrom p o) := by
  refine h.testFrom ?_ ?_
  · rintro i rfl hs
    simp [Operand.presenceFrom, hs]
  · intro hs
    cases o with
    | column i => simp [Operand.presenceFrom, hs i rfl, Operand.valueFrom]
    | _ => rfl

lemma Appends.absenceFrom : Appends true s (o.absenceFrom s x) (absenceFrom p o) := by
  refine h.testFrom ?_ ?_
  · rintro i rfl hs
    simp [Operand.absenceFrom, hs]
  · intro hs
    cases o with
    | column i => simp [Operand.absenceFrom, hs i rfl, Operand.valueFrom]
    | _ => rfl

/-! ### Operators -/

lemma Appends.compareConstant (c : Comparison) (l : Literal) :
    Appends true s (Operand.compareConstant s c x o l) (compareConstant p c o l) := by
  unfold Procedure.compareConstant
  dsimp only
  split
  · next hnull =>
    simp only [Operand.compareConstant, hnull]
    exact h.valueFrom.take_apart fun v => [.whereEmits (v ++ [.satisfies c .null])]
  · next hnull =>
    refine h.testFrom ?_ ?_
    · rintro i rfl hs
      simp [Operand.compareConstant, hs]
    · intro hs
      cases o with
      | column i => simp [Operand.compareConstant, hs i rfl, Operand.valueFrom]
      | _ => simp [Operand.compareConstant]

lemma Appends.compare (h' : Appends true s y q) (c : Comparison) :
    Appends true s (Operand.compare s c o o' x y) (compare p q c o o') := by
  have hpair : Appends true s (do
        let l ← o.valueFrom s x
        let r ← o'.valueFrom s y
        return [.whereEmits (pair l r ++ [.whereEntries "lhs" c "rhs"])]) (do
        let l ← apart (Procedure.valueFrom p o)
        let r ← apart (Procedure.valueFrom q o')
        take [.whereEmits (pair l r ++ [.whereEntries "lhs" c "rhs"])]) :=
    h.valueFrom.bind_apart fun _ => h'.valueFrom.bind_apart fun _ => appends_take _ _
  cases o' with
  | constant l => exact h.compareConstant c l
  | _ =>
    cases o with
    | constant l => exact h'.compareConstant c.flip l
    | _ => exact hpair

lemma Appends.arithmetic (h' : Appends true s y q) (a : Arithmetic) : Appends false s (do
      let l ← o.valueFrom s x
      let r ← o'.valueFrom s y
      return pair l r ++ [.math ("lhs " ++ a.symbol ++ " rhs")]) (arithmetic p q a o o') := by
  have hright := h'.valueFrom (o := o') |>.bind_apart fun r =>
    (appends_take true [.by_ r]).seq (appends_take true [.math ("lhs " ++ a.symbol ++ " rhs")])
  have hleft := h.valueFrom (o := o) |>.bind_apart fun l => (appends_take true [.by_ l]).seq hright
  have hall := (appends_take true [.project ["lhs", "rhs"]]).seq hleft
  cases hl : o.valueFrom s x <;> cases hr : o'.valueFrom s y <;>
    simpa [hl, hr, Procedure.arithmetic, pair] using hall

lemma Appends.cast : Appends false s (Operand.cast s o o' x) (cast p o o') := by
  cases o' with
  | target t =>
    refine appends_scope (appends_ofOutcome fun type => ?_)
    split
    · have hstring : Appends true s (.ok (if type = .varchar then [] else [.asString]))
          (if type = .varchar then pure () else take [.asString]) := by
        split
        · exact appends_none _
        · exact appends_take _ _
      simpa using h.valueFrom.seq hstring
    · split
      · exact h.valueFrom.draft
      · exact appends_fault _ _
  | _ => exact appends_fault _ _

end

/-- The rows of the group are there already if the argument fails. -/
lemma Appends.aggregate {o : Operand} (hs : s.inAggregate = false) (a : Aggregate)
    (distinct : Bool) (h : Appends true s.aggregated x p) :
    Appends false s (Operand.aggregate s a distinct o x) (aggregate p a distinct o) := by
  have hrows {y : Outcome Steps} {b : Bool} (hy : Appends b s y (argument p a distinct o)) :
      Appends false s (y.map fun v => s.groupRowSteps ++ v ++ [.reduce a])
        (Procedure.aggregate p a distinct o) := by
    refine appends_scope ?_
    have hall := (appends_take true s.groupRowSteps).seq (hy.seq (appends_take true [.reduce a]))
    cases y <;> simpa using hall
  have hdedup : Appends true s (.ok (if distinct then [.dedup] else []))
      (if distinct then take [.dedup] else pure ()) := by
    split
    · exact appends_take _ _
    · exact appends_none _
  have hvalue (hstar : argument p a distinct o = do
        Procedure.amongRows (Procedure.valueFrom p o)
        if distinct then take [.dedup] else pure ()) :
      Appends false s ((o.valueFrom s.aggregated x).map fun v =>
        s.groupRowSteps ++ v ++ (if distinct then [.dedup] else []) ++ [.reduce a])
        (Procedure.aggregate p a distinct o) := by
    have hall := hrows (hstar ▸ (h.valueFrom.amongRows hs).seq hdedup)
    cases hv : o.valueFrom s.aggregated x <;> simpa [hv] using hall
  cases o with
  | column i =>
    cases hstar : i.isStar with
    | true =>
      simp only [argument, hstar, if_true] at hrows
      simp only [Operand.aggregate, hstar, if_true]
      split
      · next ha =>
        subst ha
        simpa using hrows (appends_none true)
      · next ha =>
        simp only [ha, if_false] at hrows
        exact hrows (appends_fault true _)
    | false => simpa [Operand.aggregate, hstar] using hvalue (by simp [argument, hstar])
  | _ => exact hvalue rfl

lemma appends_refuse (op : Operator) (expected received : Nat) :
    Appends true s (if op.family = .unsupported then Outcome.fault (.unknownOperator op.name)
      else Operand.mismatch op expected received) (refuse op expected received) := by
  unfold refuse
  split <;> exact appends_fault _ _

/-! ### Operands -/

/-- The steps of an operand are appended at once. What its negation asks for is appended part by
part. -/
def IsPlaced (o : Operand) : Prop :=
  ∀ s, Appends true s (Operand.own s o) (own o) ∧ Appends false s (Operand.guard s o) (guard o)

lemma appends_presences {os : List Operand} (hos : ∀ o ∈ os, IsPlaced o) :
    Appends false s (Operand.presences s os) (presences os) := by
  induction os with
  | nil => exact appends_none _
  | cons o os ih =>
    obtain ⟨ho, hos⟩ := List.forall_mem_cons.1 hos
    rw [presences, Operand.presences]
    split
    · exact (appends_none true).seq (ih hos)
    · exact ((ho s).1.presenceFrom).seq (ih hos)

lemma appends_operation {c : Call} {os : List Operand} (hos : ∀ o ∈ os, IsPlaced o) :
    Appends true s (Operand.operation s c os) (operation c os) := by
  -- What is made apart need not be whole to be appended as a whole.
  have hwhole {b : Bool} {v : Outcome Steps} {p : Procedure Unit} (h : Appends b s v p) :
      Appends true s v (do take (← apart p)) := by
    have := h.take_apart id
    cases v <;> exact this
  obtain _ | ⟨l, _ | ⟨r, _ | _⟩⟩ := os
  · exact appends_fault _ _
  · obtain ⟨hl, hguard⟩ := hos l (by simp) s
    cases hop : c.operator <;>
      simp only [Operand.operation, operation, unary, hop]
    case isNull => exact hwhole hl.absenceFrom
    case isNotNull => exact hwhole hl.presenceFrom
    case not =>
      have hall := hguard.seq (hl.filterFrom (o := l) |>.take_apart fun child => [.not child])
      refine hwhole (b := false) ?_
      cases hg : Operand.guard s l <;> cases hf : l.filterFrom s (Operand.own s l) <;>
        simpa [hg, hf] using hall
    case negate =>
      have hall := (hl.valueFrom (o := l)).seq (appends_take true [.math "-_"])
      refine hwhole (b := false) ?_
      cases hv : l.valueFrom s (Operand.own s l) <;> simpa [hv] using hall
    case aggregate a =>
      refine hwhole (b := false) (appends_scope ?_)
      split
      · exact appends_fault _ _
      · next hs =>
        simp only [Bool.or_eq_true, not_or, Bool.not_eq_true] at hs
        exact (hos l (by simp) s.aggregated).1.aggregate hs.2 a c.distinct
    all_goals exact hwhole (appends_refuse _ _ _)
  · have hl := (hos l (by simp) s).1
    have hr := (hos r (by simp) s).1
    cases hop : c.operator <;>
      simp only [Operand.operation, operation, binary, hop]
    case comparison p => exact hwhole (hl.compare hr p)
    case and | or =>
      refine hwhole (b := true) (hl.filterFrom.bind_apart fun _ => ?_)
      exact hr.filterFrom.bind_apart fun _ => appends_take true _
    case arithmetic a => exact hwhole (hl.arithmetic hr a)
    case cast => exact hwhole hl.cast
    all_goals exact hwhole (appends_refuse _ _ _)
  · exact appends_fault _ _

theorem isPlaced : ∀ o : Operand, IsPlaced o
  | .column i => fun s =>
    have hcolumn := appends_column (s := s) true i
    ⟨hcolumn, (hcolumn.presenceFrom (o := .column i)).draft⟩
  | .constant l => fun _ => ⟨appends_take _ _, appends_none _⟩
  | .target t => fun _ => ⟨appends_fault _ _, appends_none _⟩
  | .raw n => fun _ => ⟨appends_fault _ _, appends_none _⟩
  | .apply c text label os => by
    have hos (o : Operand) (_ : o ∈ os) : IsPlaced o := isPlaced o
    refine fun s => ⟨appends_operation hos, ?_⟩
    simp only [guard, Operand.guard]
    cases c.operator with
    | comparison => exact appends_presences hos
    | _ => exact appends_none _

/-! ### Additions -/

/-- Work that appends steps at once or fails and leaves all as it was. The steps depend on what is
known, and on nothing that is on the traversal already. -/
def IsAtomic (p : Procedure Unit) (steps : Scope → Outcome Steps) : Prop :=
  ∀ w : Workbench, p w = match steps w.scope with
    | .ok v => .ok () { w with traversal := w.traversal.append v }
    | .error e => .error e w

lemma isAtomic_of_appends {steps : Scope → Outcome Steps} (h : ∀ s, Appends true s (steps s) p) :
    IsAtomic p steps := by
  intro w
  have hp := h w.scope w rfl
  cases hv : steps w.scope with
  | ok v => rwa [hv] at hp
  | error e =>
    rw [hv] at hp
    obtain ⟨t, ht, hwhole⟩ := hp
    rw [ht, hwhole rfl]

/-- An addition of what a node becomes is tried after the node has been taken apart. -/
lemma perform_eq_attempt {α : Type} {y : Outcome α} {p : α → Procedure Unit}
    {steps : α → Scope → Outcome Steps} (h : ∀ a, IsAtomic (p a) (steps a)) (w : Workbench) :
    perform (do p (← ofOutcome y)) w = w.attempt (y >>= fun a => w.extend (steps a w.scope)) := by
  cases y with
  | error e => rfl
  | ok a =>
    have hp : (do p (← ofOutcome (.ok a)) : Procedure Unit) w = p a w := rfl
    rw [perform, hp, h a w]
    cases hv : steps a w.scope <;> simp [Workbench.extend, Workbench.attempt, hv]

/-- **Additions are atomic and local.** In place, the steps of an operator, of a value, of a filter
and of a presence are appended to a traversal as a whole, whatever is on it, or not at all, and the
failure is that of the steps. Nothing but the traversal changes, neither the scope nor the columns
of the result: wherever in an expression the work fails, no aggregate is left open. -/
theorem additions_are_atomic :
    (∀ c os, IsAtomic (operation c os) fun s => Operand.operation s c os) ∧
    (∀ o : Operand, IsAtomic (value o) (o.value ·) ∧ IsAtomic (filter o) (o.filter ·) ∧
      IsAtomic (presence o) (o.presence ·)) ∧
    ∀ (w : Workbench) (n : Node), perform (addOperator n) w = w.attempt (w.addOperator n) ∧
      perform (addValue n) w = w.attempt (w.addValue n) ∧
      perform (addFilter n) w = w.attempt (w.addFilter n) ∧
      perform (addPresence n) w = w.attempt (w.addPresence n) := by
  have hoperation (c : Call) (os : List Operand) :
      IsAtomic (operation c os) fun s => Operand.operation s c os :=
    isAtomic_of_appends fun s => appends_operation fun o _ => isPlaced o
  have hvalue (o : Operand) : IsAtomic (value o) (o.value ·) :=
    isAtomic_of_appends fun s => (isPlaced o s).1.valueFrom
  have hfilter (o : Operand) : IsAtomic (filter o) (o.filter ·) :=
    isAtomic_of_appends fun s => (isPlaced o s).1.filterFrom
  have hpresence (o : Operand) : IsAtomic (presence o) (o.presence ·) :=
    isAtomic_of_appends fun s => (isPlaced o s).1.presenceFrom
  refine ⟨hoperation, fun o => ⟨hvalue o, hfilter o, hpresence o⟩, fun w n => ⟨?_, ?_, ?_, ?_⟩⟩
  · cases n with
    | call c ns => exact perform_eq_attempt (hoperation c) w
    | _ => rfl
  · exact perform_eq_attempt hvalue w
  · exact perform_eq_attempt hfilter w
  · exact perform_eq_attempt hpresence w

end GraphSelect.Procedure
