import GraphSelect.Proofs.Readings

/-!
What the steps of an expression compute.

An expression is given its data by what its columns have, with no regard to how they are read. The
steps of its operand compute just these data wherever its columns can be read: at a row, where a
test of a column is a test of a property, and at a group, where a column is a group key.
-/

namespace GraphSelect

variable {E D : Type}

/-- Only a cast to a text changes what it is applied to. -/
def Algebra.cast (a : Algebra D) (old new : TypeName) (d : Option D) : Option D :=
  if new = .varchar ∧ old ≠ .varchar then d.bind a.spell else d

namespace Operand

def isPredicate : Operand → Bool
  | .apply c _ _ _ => c.operator.isPredicate
  | _ => false

/-- The text by which a call is known as a group key. -/
def text? : Operand → Option String
  | .apply _ text _ _ => some text
  | _ => none

variable (a : Algebra D) (type : Operand → Outcome TypeName) (column? : Identifier → Option D)

mutual
/-- The data of an operand from those of its columns. A condition is true or false, and false also
of what is missing. -/
def data? : Operand → Option D
  | .column i => column? i
  | .constant l => some (a.ofValue l.native)
  | .apply c _ _ [x] =>
    match c.operator with
    | .isNull => some (a.ofBool (data? x).isNone)
    | .isNotNull => some (a.ofBool (data? x).isSome)
    | .not => some (a.ofBool (guarded x && !(data? x).any a.isTrue))
    | .negate => (data? x).bind a.negate
    | _ => none
  | .apply c _ _ [x, y] =>
    match c.operator with
    | .comparison p => some (a.ofBool ((Option.map₂ (a.compares p) (data? x) (data? y)).getD false))
    | .and => some (a.ofBool ((data? x).any a.isTrue && (data? y).any a.isTrue))
    | .or => some (a.ofBool ((data? x).any a.isTrue || (data? y).any a.isTrue))
    | .arithmetic o => (Option.map₂ (a.combine o) (data? x) (data? y)).join
    | .cast =>
      match y, type x with
      | .target new, .ok old => a.cast old new.type (data? x)
      | _, _ => none
    | _ => none
  | _ => none

/-- Whether nothing is missing that a negation of the operand asks for. -/
def guarded : Operand → Bool
  | .column i => (column? i).isSome
  | .apply c _ _ xs =>
    match c.operator with
    | .comparison _ => presentEach xs
    | _ => true
  | _ => true

def presentEach : List Operand → Bool
  | [] => true
  | x :: xs => (data? x).isSome && presentEach xs
end

end Operand

namespace Executor

variable [DecidableEq E] {x : Executor E D} {s : Scope} {t : Traverser E D} {v w : Steps}
  {d d' : Option D}

/-! ### Uses of an operand -/

variable (x) in
/-- The steps of an operand in itself compute its data: a condition as a filter, all else as a
reading. -/
inductive Computes (t : Traverser E D) : Operand → Option D → Steps → Prop
  | value {o : Operand} {d : Option D} {v : Steps} (h : o.isPredicate = false)
      (hv : x.run v t = t.reading d) : Computes t o d v
  | filter {o : Operand} {b : Bool} {v : Steps} (h : o.isPredicate = true)
      (hv : x.run v t = t.keptIf b) : Computes t o (some (x.ofBool b)) v

variable (x) in
/-- An operand that is no group key has steps of its own that compute its data. -/
structure Evaluates (s : Scope) (t : Traverser E D) (o : Operand) (d : Option D) (v : Steps) :
    Prop where
  own : o.own s = .ok v
  computes : x.Computes t o d v
  notKey : ∀ text, o.text? = some text → s.isGroupKey text = false
  column : ∀ i, o = .column i → x.Sees s t i d

namespace Evaluates

variable {o o' : Operand}

lemma value (h : x.Evaluates s t o d v) :
    ∃ w, o.valueFrom s (o.own s) = .ok w ∧ x.run w t = t.reading d := by
  have hown := h.own
  cases o with
  | apply c text label os =>
    have hk := h.notKey text rfl
    cases h.computes with
    | value hp hv =>
      simp only [Operand.isPredicate] at hp
      exact ⟨v, by simp [Operand.valueFrom, hk, hp, hown], hv⟩
    | filter hp hv =>
      simp only [Operand.isPredicate] at hp
      exact ⟨truthOf v, by simp [Operand.valueFrom, hk, hp, hown], run_truthOf hv⟩
  | _ =>
    cases h.computes with
    | value _ hv => exact ⟨v, hown, hv⟩
    | filter hp _ => simp [Operand.isPredicate] at hp

lemma filter (h : x.Evaluates s t o d v) :
    ∃ w, o.filterFrom s (o.own s) = .ok w ∧ x.run w t = t.keptIf (d.any x.isTrue) := by
  obtain ⟨w, hw, hr⟩ := h.value
  have hown := h.own
  cases o with
  | apply c text label os =>
    cases h.computes with
    | value hp _ =>
      simp only [Operand.isPredicate] at hp
      exact ⟨holds w, by simp [Operand.filterFrom, hp, hw], run_holds hr⟩
    | filter hp hv =>
      simp only [Operand.isPredicate] at hp
      exact ⟨v, by simp [Operand.filterFrom, hp, hown], by simpa using hv⟩
  | _ => exact ⟨holds w, congrArg (Except.map holds) hw, run_holds hr⟩

lemma presence (h : x.Evaluates s t o d v) :
    ∃ w, o.presenceFrom s (o.own s) = .ok w ∧ w.all Step.isLocal ∧
      x.run w t = t.keptIf d.isSome := by
  obtain ⟨w, hw, hr⟩ := h.value
  cases o with
  | column i =>
    exact (h.column i rfl).test Option.isSome .has _ (fun _ => rfl) (fun _ => rfl)
      (fun k e => x.run_has k e) fun _ => run_whereEmits_reading
  | _ =>
    exact ⟨_, congrArg (Except.map fun v => [Step.whereEmits v]) hw, rfl,
      run_whereEmits_reading hr⟩

lemma absence (h : x.Evaluates s t o d v) :
    ∃ w, o.absenceFrom s (o.own s) = .ok w ∧ x.run w t = t.keptIf d.isNone := by
  obtain ⟨w, hw, hr⟩ := h.value
  cases o with
  | column i =>
    obtain ⟨u, hu, -, hrun⟩ := (h.column i rfl).test Option.isNone .hasNot
      (fun v => [.not v]) (fun _ => rfl) (fun _ => rfl) (fun k e => x.run_hasNot k e)
      fun _ => run_not_reading
    exact ⟨u, hu, hrun⟩
  | _ => exact ⟨_, congrArg (Except.map fun v => [Step.not v]) hw, run_not_reading hr⟩

lemma compareConstant (h : x.Evaluates s t o d v) (c : Comparison) (l : Literal) :
    ∃ w, Operand.compareConstant s c (o.own s) o l = .ok w ∧
      x.run w t = t.keptIf (d.any fun d => x.compares c d (x.ofValue l.native)) := by
  obtain ⟨w, hw, hr⟩ := h.value
  have hvalue : ∃ u, (o.valueFrom s (o.own s)).map
      (fun v => [.whereEmits (v ++ [.satisfies c l.native])]) = .ok u ∧
      x.run u t = t.keptIf (d.any fun d => x.compares c d (x.ofValue l.native)) :=
    ⟨_, by rw [hw]; rfl, run_whereSatisfies c _ hr⟩
  unfold Operand.compareConstant
  split
  · next hnull => rwa [hnull] at hvalue ⊢
  · next i _ =>
    obtain ⟨u, hu, -, hrun⟩ := (h.column i rfl).test
      (fun d => d.any fun d => x.compares c d (x.ofValue l.native))
      (fun k => .hasValue k c l.native) (fun v => [.whereEmits (v ++ [.satisfies c l.native])])
      (fun _ => rfl) (fun _ => rfl)
      (fun k e => x.run_hasValue k c _ e) fun _ => run_whereSatisfies c _
    exact ⟨u, hu, hrun⟩
  · exact hvalue

lemma constant_data {l : Literal} (h : x.Evaluates s t (.constant l) d v) :
    d = some (x.ofValue l.native) := by
  have hown : [Step.constant l.native] = v := Except.ok.inj h.own
  cases h.computes with
  | value _ hv =>
    rw [← hown, x.run_constant] at hv
    exact (Traverser.reading_injective hv).symm
  | filter hp _ => simp [Operand.isPredicate] at hp

lemma compare (h : x.Evaluates s t o d v) (h' : x.Evaluates s t o' d' w) (c : Comparison) :
    ∃ u, Operand.compare s c o o' (o.own s) (o'.own s) = .ok u ∧
      x.run u t = t.keptIf ((Option.map₂ (x.compares c) d d').getD false) := by
  unfold Operand.compare
  split
  · next l =>
    obtain ⟨u, hu, hr⟩ := h.compareConstant c l
    refine ⟨u, hu, ?_⟩
    rw [hr, h'.constant_data]
    cases d <;> rfl
  · next l _ =>
    -- A constant on the left: the sides are exchanged, and so is the comparison.
    obtain ⟨u, hu, hr⟩ := h'.compareConstant c.flip l
    refine ⟨u, hu, ?_⟩
    rw [hr, h.constant_data]
    cases d' <;> simp [x.compares_flip]
  · obtain ⟨u, hu, hr⟩ := h.value
    obtain ⟨u', hu', hr'⟩ := h'.value
    exact ⟨_, by rw [hu, hu']; rfl, run_comparePair c hr hr'⟩

end Evaluates

end Executor

/-! ### Whole operands -/

/-- The operators of one operand that read a row or a group alike. -/
@[simp] def Operator.takesOne : Operator → Bool
  | .isNull | .isNotNull | .not | .negate => true
  | _ => false

/-- The operators of two operands that read a row or a group alike. -/
@[simp] def Operator.takesTwo : Operator → Bool
  | .comparison _ | .and | .or | .arithmetic _ => true
  | _ => false

namespace Operand

section

variable (type : Operand → Outcome TypeName) (col : Identifier → Prop) (txt : String → Prop)

/-- The operands whose steps can be made wherever those of their columns can: every operator has as
many operands as it takes, and a cast keeps the type or makes a text. -/
inductive Evaluable : Operand → Prop
  | column {i : Identifier} (h : col i) : Evaluable (.column i)
  | constant (l : Literal) : Evaluable (.constant l)
  | one {c : Call} {text label : String} {o : Operand} (hc : c.operator.takesOne) (ht : txt text)
      (h : Evaluable o) : Evaluable (.apply c text label [o])
  | two {c : Call} {text label : String} {o o' : Operand} (hc : c.operator.takesTwo)
      (ht : txt text) (h : Evaluable o) (h' : Evaluable o') :
      Evaluable (.apply c text label [o, o'])
  | cast {c : Call} {text label : String} {o : Operand} {t : TypeSpec} {old : TypeName}
      (hc : c.operator = .cast) (ht : txt text) (h : Evaluable o) (hold : type o = .ok old)
      (hnew : t.type = .varchar ∨ t.type = old) : Evaluable (.apply c text label [o, .target t])

end

open Executor

variable [DecidableEq E] {x : Executor E D} {s : Scope} {t : Traverser E D}
variable {type : Operand → Outcome TypeName} {column? : Identifier → Option D}

/-- What the steps of an operand compute, and those that guard its negation. -/
structure Understood (x : Executor E D) (s : Scope) (t : Traverser E D)
    (type : Operand → Outcome TypeName) (column? : Identifier → Option D) (o : Operand) : Prop where
  evaluates : ∃ v, x.Evaluates s t o (o.data? x.toAlgebra type column?) v
  guard : ∃ g, o.guard s = .ok g ∧ x.run g t = t.keptIf (o.guarded x.toAlgebra type column?)

lemma presences_run {os : List Operand} (h : ∀ o ∈ os, Understood x s t type column? o) :
    ∃ g, presences s os = .ok g ∧ g.all Step.isLocal ∧
      x.run g t = t.keptIf (presentEach x.toAlgebra type column? os) := by
  induction os with
  | nil => exact ⟨[], rfl, rfl, x.run_nil t⟩
  | cons o os ih =>
    obtain ⟨v, hv⟩ := (h o (by simp)).evaluates
    obtain ⟨rest, hrest, hlocal, hrun⟩ := ih fun o ho => h o (by simp [ho])
    have hfirst : ∃ g, (if o.isConstant then .ok [] else o.presenceFrom s (own s o)) = .ok g ∧
        g.all Step.isLocal ∧
        x.run g t = t.keptIf (o.data? x.toAlgebra type column?).isSome := by
      cases o with
      | constant l => exact ⟨[], rfl, rfl, x.run_nil t⟩
      | _ => exact hv.presence
    obtain ⟨first, hfirst, hlocal', hrun'⟩ := hfirst
    refine ⟨first ++ rest, ?_, by simp [hlocal, hlocal'], ?_⟩
    · cases hc : o.isConstant <;> simp [hc] at hfirst <;> simp [presences, hc, hrest, hfirst]
    · rw [x.run_append _ _ _ hlocal, hrun', Traverser.flatMap_keptIf, hrun]
      rw [presentEach]
      cases (o.data? x.toAlgebra type column?).isSome <;> rfl

section

variable {c : Call} (text label : String) {o o' : Operand}

lemma isPredicate_apply {text label : String} {op : Operator} {os : List Operand}
    (hop : c.operator = op) : (Operand.apply c text label os).isPredicate = op.isPredicate := by
  rw [isPredicate, hop]

lemma computes_one (hc : c.operator.takesOne) (h : Understood x s t type column? o) :
    ∃ v, own s (.apply c text label [o]) = .ok v ∧ x.Computes t (.apply c text label [o])
      (data? x.toAlgebra type column? (.apply c text label [o])) v := by
  obtain ⟨v, hv⟩ := h.evaluates
  cases hop : c.operator <;> simp only [hop, Operator.takesOne, Bool.false_eq_true] at hc
  case not =>
    obtain ⟨g, hg, hgr⟩ := h.guard
    obtain ⟨f, hf, hfr⟩ := hv.filter
    refine ⟨g ++ [.not f], by simp [own, operation, hop, hg, hf], ?_⟩
    simp only [data?, hop]
    refine .filter (isPredicate_apply hop) ?_
    rw [x.run_append _ _ _ rfl, hgr, Traverser.flatMap_keptIf, x.run_not, hfr]
    cases o.guarded x.toAlgebra type column? <;> simp
  case isNull =>
    obtain ⟨w, hw, hr⟩ := hv.absence
    refine ⟨w, by simp [own, operation, hop, hw], ?_⟩
    simp only [data?, hop]
    exact .filter (isPredicate_apply hop) hr
  case isNotNull =>
    obtain ⟨w, hw, -, hr⟩ := hv.presence
    refine ⟨w, by simp [own, operation, hop, hw], ?_⟩
    simp only [data?, hop]
    exact .filter (isPredicate_apply hop) hr
  case negate =>
    obtain ⟨w, hw, hr⟩ := hv.value
    refine ⟨w ++ [.math "-_"], by simp [own, operation, hop, hw], ?_⟩
    simp only [data?, hop]
    exact .value (isPredicate_apply hop) (run_negated hr)

lemma computes_two (hc : c.operator.takesTwo) (h : Understood x s t type column? o)
    (h' : Understood x s t type column? o') :
    ∃ v, own s (.apply c text label [o, o']) = .ok v ∧ x.Computes t (.apply c text label [o, o'])
      (data? x.toAlgebra type column? (.apply c text label [o, o'])) v := by
  obtain ⟨v, hv⟩ := h.evaluates
  obtain ⟨v', hv'⟩ := h'.evaluates
  cases hop : c.operator <;> simp only [hop, Operator.takesTwo, Bool.false_eq_true] at hc
  case comparison p =>
    obtain ⟨w, hw, hr⟩ := hv.compare hv' p
    refine ⟨w, by simp [own, operation, hop, hw], ?_⟩
    simp only [data?, hop]
    exact .filter (isPredicate_apply hop) hr
  case and =>
    obtain ⟨f, hf, hr⟩ := hv.filter
    obtain ⟨f', hf', hr'⟩ := hv'.filter
    refine ⟨[.and [f, f']], by simp [own, operation, hop, hf, hf'], ?_⟩
    simp only [data?, hop]
    refine .filter (isPredicate_apply hop) ?_
    rw [x.run_and]
    simp [hr, hr']
  case or =>
    obtain ⟨f, hf, hr⟩ := hv.filter
    obtain ⟨f', hf', hr'⟩ := hv'.filter
    refine ⟨[.or [f, f']], by simp [own, operation, hop, hf, hf'], ?_⟩
    simp only [data?, hop]
    refine .filter (isPredicate_apply hop) ?_
    rw [x.run_or]
    simp [hr, hr']
  case arithmetic a =>
    obtain ⟨w, hw, hr⟩ := hv.value
    obtain ⟨w', hw', hr'⟩ := hv'.value
    refine ⟨pair w w' ++ [.math ("lhs " ++ a.symbol ++ " rhs")],
      by simp [own, operation, hop, hw, hw'], ?_⟩
    simp only [data?, hop]
    exact .value (isPredicate_apply hop) (run_combinePair a hr hr')

lemma computes_cast {target : TypeSpec} {old : TypeName} (hc : c.operator = .cast)
    (htype : o.type s = type o) (hold : type o = .ok old)
    (hnew : target.type = .varchar ∨ target.type = old) (h : Understood x s t type column? o) :
    ∃ v, own s (.apply c text label [o, .target target]) = .ok v ∧
      x.Computes t (.apply c text label [o, .target target])
        (data? x.toAlgebra type column? (.apply c text label [o, .target target])) v := by
  obtain ⟨v, hv⟩ := h.evaluates
  obtain ⟨w, hw, hr⟩ := hv.value
  have hp : (Operand.apply c text label [o, .target target]).isPredicate = false :=
    isPredicate_apply hc
  rw [hold] at htype
  simp only [own, operation, hc, cast, data?, htype, hold, Outcome.ok_bind, hw, Algebra.cast]
  by_cases hv : target.type = .varchar
  · by_cases ho : old = .varchar
    · exact ⟨w, by simp [hv, ho], .value hp (by simp [ho, hr])⟩
    · exact ⟨w ++ [.asString], by simp [hv, ho], .value hp (by simpa [hv, ho] using run_spelled hr)⟩
  · have := hnew.resolve_left hv
    exact ⟨w, by simp [this], .value hp (by simp [hv, hr])⟩

end

/-- **Evaluation.** Where the columns can be read, the steps of an operand compute its data. -/
theorem Evaluable.understood {col : Identifier → Prop} {txt : String → Prop}
    (hcol : ∀ i, col i → x.Sees s t i (column? i)) (htxt : ∀ k, txt k → s.isGroupKey k = false)
    (htype : ∀ o : Operand, o.type s = type o) {o : Operand} (h : Evaluable type col txt o) :
    Understood x s t type column? o := by
  induction h with
  | @column i h =>
    have hsees := hcol i h
    obtain ⟨v, hv, hr⟩ := hsees.columnSteps
    have hev : x.Evaluates s t (.column i) (column? i) v :=
      ⟨hv, .value rfl hr, nofun, fun j hj => by cases hj; exact hsees⟩
    obtain ⟨g, hg, -, hgr⟩ := hev.presence
    exact ⟨⟨v, by simpa [data?] using hev⟩, ⟨g, hg, by simpa [guarded] using hgr⟩⟩
  | constant l =>
    refine ⟨⟨[.constant l.native], rfl, ?_, nofun, nofun⟩, ⟨[], rfl, x.run_nil t⟩⟩
    exact .value rfl (x.run_constant _ t)
  | @one c text label o hc ht h ih =>
    obtain ⟨v, hv, hcomp⟩ := computes_one text label hc ih
    refine ⟨⟨v, hv, hcomp, fun k hk => ?_, nofun⟩, ⟨[], ?_, ?_⟩⟩
    · cases hk
      exact htxt text ht
    · cases hop : c.operator <;> simp_all [guard, Operator.takesOne]
    · cases hop : c.operator <;> simp_all [guarded, Operator.takesOne, x.run_nil]
  | @two c text label o o' hc ht h h' ih ih' =>
    obtain ⟨v, hv, hcomp⟩ := computes_two text label hc ih ih'
    refine ⟨⟨v, hv, hcomp, fun k hk => ?_, nofun⟩, ?_⟩
    · cases hk
      exact htxt text ht
    · have hboth : ∀ p ∈ [o, o'], Understood x s t type column? p := by simp [ih, ih']
      obtain ⟨g, hg, -, hr⟩ := presences_run hboth
      cases hop : c.operator <;> simp only [guard, guarded, hop]
      case comparison => exact ⟨g, hg, hr⟩
      all_goals exact ⟨[], rfl, x.run_nil t⟩
  | @cast c text label o target old hc ht h hold hnew ih =>
    obtain ⟨v, hv, hcomp⟩ :=
      computes_cast text label hc (htype o) hold hnew ih
    refine ⟨⟨v, hv, hcomp, fun k hk => ?_, nofun⟩, ⟨[], ?_, ?_⟩⟩
    · cases hk
      exact htxt text ht
    · simp [guard, hc]
    · simp [guarded, hc, x.run_nil]

end Operand

end GraphSelect
