import GraphSelect.Proofs.Clauses
import GraphSelect.Proofs.Rules

/-!
Why a query has no plan.

Planning stops at the first part of a query that has no steps, and the failure does not say which
part that is. Here it is found. An operand has no steps for what it is itself, or since one of its
own operands has none; the operand of an aggregate at a group is seen from the rows of the group.
All that planning does besides, such as looking up tables and naming columns, fails in ways of its
own.
-/

namespace GraphSelect

namespace Outcome

variable {α β : Type} {P Q : Failure → Prop}

/-- Work that fails in some ways only. -/
def FailsOnly (P : Failure → Prop) (x : Outcome α) : Prop := ∀ e, x = .error e → P e

lemma failsOnly_ok (a : α) : FailsOnly P (.ok a) := nofun

lemma failsOnly_error {e : Failure} (h : P e) : FailsOnly P (.error e : Outcome α) := by
  rintro _ ⟨⟩
  exact h

lemma FailsOnly.mono {x : Outcome α} (h : FailsOnly P x) (hPQ : ∀ e, P e → Q e) : FailsOnly Q x :=
  fun e he => hPQ e (h e he)

lemma FailsOnly.bind {x : Outcome α} {f : α → Outcome β} (hx : FailsOnly P x)
    (hf : ∀ a, x = .ok a → FailsOnly P (f a)) : FailsOnly P (x >>= f) := by
  cases x with
  | ok a => exact hf a rfl
  | error e => exact failsOnly_error (hx e rfl)

lemma FailsOnly.map {x : Outcome α} (f : α → β) (hx : FailsOnly P x) : FailsOnly P (x.map f) := by
  cases x with
  | ok a => exact failsOnly_ok _
  | error e => exact failsOnly_error (hx e rfl)

lemma FailsOnly.inClause {x : Outcome α} {clause : String} (hx : FailsOnly P x)
    (h : ∀ e, P e → Q (e.within clause)) : FailsOnly Q (x.inClause clause) := by
  cases x with
  | ok a => exact failsOnly_ok _
  | error e => exact failsOnly_error (h e (hx e rfl))

lemma FailsOnly.mapM {f : α → Outcome β} {xs : List α} (hf : ∀ x ∈ xs, FailsOnly P (f x)) :
    FailsOnly P (xs.mapM f) := by
  induction xs with
  | nil => exact failsOnly_ok _
  | cons x xs ih =>
    rw [List.mapM_cons]
    obtain ⟨hx, hxs⟩ := List.forall_mem_cons.1 hf
    exact hx.bind fun _ _ => (ih hxs).bind fun _ _ => failsOnly_ok _

end Outcome

open Outcome

/-! ### Operands without steps -/

namespace Operand

def isStar : Operand → Bool
  | .column i => i.isStar
  | _ => false

/-- The failures of an operand that has no steps. -/
inductive Raises : Scope → Operand → Failure → Prop
  | unknown {s : Scope} {i : Identifier} {e : Failure} (h : s.owner i = .error e) :
      Raises s (.column i) e
  | ungrouped {s : Scope} {i : Identifier} (hs : s.isRowContext = false) :
      Raises s (.column i) (.fault (.columnNotGrouped i.text))
  /-- An operand of a kind that is not asked for. -/
  | operandType {s : Scope} {o : Operand} (kind : String) :
      Raises s o (.fault (.unsupportedOperandType kind))
  | operandsEmpty {s : Scope} {c : Call} {text label : String} :
      Raises s (.apply c text label []) (.fault .operandsEmpty)
  | operandsMoreThanTwo {s : Scope} {c : Call} {text label : String} {x y z : Operand}
      {os : List Operand} :
      Raises s (.apply c text label (x :: y :: z :: os)) (.fault .operandsMoreThanTwo)
  | operandCount {s : Scope} {c : Call} {text label : String} {os : List Operand} (expected : Nat) :
      Raises s (.apply c text label os)
        (.fault (.operandCountMismatch c.operator.name expected os.length))
  | operator {s : Scope} {c : Call} {text label : String} {os : List Operand}
      (hc : c.operator.family = .unsupported ∨ c.operator = .cast) :
      Raises s (.apply c text label os) (.fault (.unknownOperator c.operator.name))
  /-- An aggregate where there is no group. -/
  | aggregate {s : Scope} {c : Call} {text label : String} {os : List Operand}
      (hc : c.operator.isAggregate = true) (hs : s.isRowContext = true) :
      Raises s (.apply c text label os) (.fault (.unknownOperator c.operator.name))
  | operand {s : Scope} {c : Call} {text label : String} {os : List Operand} {x : Operand}
      {e : Failure} (hc : c.operator.family ≠ .unsupported) (ha : c.operator.isAggregate = false)
      (hx : x ∈ os) (h : Raises s x e) : Raises s (.apply c text label os) e
  | argument {s : Scope} {c : Call} {text label : String} {os : List Operand} {x : Operand}
      {e : Failure} (hc : c.operator.isAggregate = true) (hs : s.isRowContext = false)
      (hx : x ∈ os) (hstar : x.isStar = false) (h : Raises s.aggregated x e) :
      Raises s (.apply c text label os) e

section

variable {s : Scope} {o o' : Operand} {v v' : Outcome Steps} {P : Failure → Prop}

lemma failsOnly_columnSteps (s : Scope) (i : Identifier) :
    (s.columnSteps i).FailsOnly (Raises s (.column i)) := by
  refine FailsOnly.bind (fun e he => .unknown he) fun ⟨b, col⟩ _ => ?_
  dsimp only
  split
  · exact failsOnly_ok _
  · next hs =>
    split
    · exact failsOnly_ok _
    · exact failsOnly_error (.ungrouped (by simpa using hs))

lemma failsOnly_valueFrom (h : v.FailsOnly P) : (o.valueFrom s v).FailsOnly P := by
  unfold valueFrom
  split
  · split
    · exact failsOnly_ok _
    · split
      · exact h.map _
      · exact h
  · exact h

lemma failsOnly_filterFrom (h : v.FailsOnly P) : (o.filterFrom s v).FailsOnly P := by
  unfold filterFrom
  split
  · split
    · exact h
    · exact (failsOnly_valueFrom h).map _
  · exact h.map _

lemma failsOnly_columnFilter {i : Identifier} (ho : ∀ e, Raises s (.column i) e → P e)
    (filter : String → Step) : (columnFilter s i filter).FailsOnly P :=
  FailsOnly.map _ fun e he => ho e (.unknown he)

lemma failsOnly_presenceFrom (ho : ∀ e, Raises s o e → P e) (h : v.FailsOnly P) :
    (o.presenceFrom s v).FailsOnly P := by
  unfold presenceFrom
  split
  · split
    · exact failsOnly_columnFilter ho _
    · exact h.map _
  · exact (failsOnly_valueFrom h).map _

lemma failsOnly_absenceFrom (ho : ∀ e, Raises s o e → P e) (h : v.FailsOnly P) :
    (o.absenceFrom s v).FailsOnly P := by
  unfold absenceFrom
  split
  · split
    · exact failsOnly_columnFilter ho _
    · exact h.map _
  · exact (failsOnly_valueFrom h).map _

lemma failsOnly_compareConstant (ho : ∀ e, Raises s o e → P e) (h : v.FailsOnly P)
    (c : Comparison) (l : Literal) : (compareConstant s c v o l).FailsOnly P := by
  unfold compareConstant
  split
  · exact (failsOnly_valueFrom h).map _
  · split
    · exact failsOnly_columnFilter ho _
    · exact h.map _
  · exact (failsOnly_valueFrom h).map _

lemma failsOnly_compare (ho : ∀ e, Raises s o e → P e) (ho' : ∀ e, Raises s o' e → P e)
    (h : v.FailsOnly P) (h' : v'.FailsOnly P) (c : Comparison) :
    (compare s c o o' v v').FailsOnly P := by
  unfold compare
  split
  · exact failsOnly_compareConstant ho h _ _
  · exact failsOnly_compareConstant ho' h' _ _
  · exact (failsOnly_valueFrom h).bind fun _ _ =>
      (failsOnly_valueFrom h').bind fun _ _ => failsOnly_ok _

/-- The type of an operand is known if it is no column, or one that is found. -/
lemma failsOnly_type (s : Scope) (o : Operand) :
    (o.type s).FailsOnly fun e => ∃ i, o = .column i ∧ s.owner i = .error e := by
  cases o with
  | column i =>
    rw [type]
    cases i.type with
    | some t => exact failsOnly_ok t
    | none => exact FailsOnly.map _ fun e he => ⟨i, rfl, he⟩
  | _ => exact failsOnly_ok _

variable {c : Call} {text label : String} {os : List Operand}

lemma failsOnly_cast (hc : c.operator = .cast) (ho : ∀ e, Raises s o e → P e)
    (hP : ∀ e, Raises s (.apply c text label [o, o']) e → P e) (h : v.FailsOnly P) :
    (cast s o o' v).FailsOnly P := by
  unfold cast
  split
  · refine ((failsOnly_type s o).mono ?_).bind fun type _ => ?_
    · rintro e ⟨i, rfl, he⟩
      exact ho e (.unknown he)
    · split
      · exact (failsOnly_valueFrom h).bind fun _ _ => failsOnly_ok _
      · split
        · exact failsOnly_valueFrom h
        · exact failsOnly_error (hP _ (hc ▸ .operator (.inr hc)))
  · exact failsOnly_error (hP _ (.operandType _))

lemma failsOnly_aggregate (a : Aggregate) (distinct : Bool)
    (hP : ∀ kind, P (.fault (.unsupportedOperandType kind)))
    (h : o.isStar = false → v.FailsOnly P) : (aggregate s a distinct o v).FailsOnly P := by
  cases o with
  | column i =>
    simp only [aggregate]
    split
    · split
      · exact failsOnly_ok _
      · exact failsOnly_error (hP "*")
    · next hstar => exact (failsOnly_valueFrom (h (by simpa [isStar] using hstar))).map _
  | _ => exact (failsOnly_valueFrom (h rfl)).map _

/-- An operator that is applied to another number of operands than it takes. -/
lemma failsOnly_refused {expected received : Nat} (hlength : os.length = received) :
    (if c.operator.family = .unsupported then fault (.unknownOperator c.operator.name)
      else mismatch c.operator expected received).FailsOnly (Raises s (.apply c text label os)) := by
  subst hlength
  split
  · next hc => exact failsOnly_error (.operator (.inl hc))
  · exact failsOnly_error (.operandCount expected)

lemma failsOnly_presences (ho : ∀ o ∈ os, ∀ e, Raises s o e → P e)
    (h : ∀ o ∈ os, (own s o).FailsOnly (Raises s o)) : (presences s os).FailsOnly P := by
  induction os with
  | nil => exact failsOnly_ok _
  | cons o os ih =>
    obtain ⟨hP, ho⟩ := List.forall_mem_cons.1 ho
    obtain ⟨h, hos⟩ := List.forall_mem_cons.1 h
    have hrest := ih ho hos
    rw [presences]
    split
    · exact (failsOnly_ok _).bind fun _ _ => hrest.bind fun _ _ => failsOnly_ok _
    · exact (failsOnly_presenceFrom hP (h.mono hP)).bind fun _ _ =>
        hrest.bind fun _ _ => failsOnly_ok _

lemma failsOnly_operation
    (h : ∀ o ∈ os, ∀ s, (own s o).FailsOnly (Raises s o) ∧ (guard s o).FailsOnly (Raises s o)) :
    (operation s c os).FailsOnly (Raises s (.apply c text label os)) := by
  -- What an operator fails over if it reads its operands where it stands itself.
  have hoperand (hc : c.operator.family ≠ .unsupported) (ha : c.operator.isAggregate = false)
      {x : Operand} (hx : x ∈ os) (e : Failure) (he : Raises s x e) :
      Raises s (.apply c text label os) e := .operand hc ha hx he
  obtain _ | ⟨x, _ | ⟨y, _ | _⟩⟩ := os
  · exact failsOnly_error .operandsEmpty
  · obtain ⟨hx, hguard⟩ := h x (by simp) s
    cases hop : c.operator <;> simp only [operation, hop] <;> rw [hop] at hoperand
    case isNull =>
      have he := hoperand (by simp [Operator.family]) rfl (List.mem_singleton_self x)
      exact failsOnly_absenceFrom he (hx.mono he)
    case isNotNull =>
      have he := hoperand (by simp [Operator.family]) rfl (List.mem_singleton_self x)
      exact failsOnly_presenceFrom he (hx.mono he)
    case not =>
      have he := hoperand (by simp [Operator.family]) rfl (List.mem_singleton_self x)
      exact (hguard.mono he).bind fun _ _ =>
        (failsOnly_filterFrom (hx.mono he)).bind fun _ _ => failsOnly_ok _
    case negate =>
      have he := hoperand (by simp [Operator.family]) rfl (List.mem_singleton_self x)
      exact (failsOnly_valueFrom (hx.mono he)).map _
    case aggregate a =>
      have ha : c.operator.isAggregate = true := by rw [hop]; rfl
      split
      · next hs =>
        have he : Raises s (.apply c text label [x]) (.fault (.unknownOperator c.operator.name)) :=
          .aggregate ha hs
        rw [hop] at he
        exact failsOnly_error he
      · next hs =>
        refine failsOnly_aggregate a _ (.operandType ·) fun hstar => ?_
        exact (h x (by simp) s.aggregated).1.mono fun e he =>
          .argument ha (by simpa [Scope.isRowContext] using hs) (by simp) hstar he
    all_goals
      rw [← hop]
      exact failsOnly_refused rfl
  · obtain ⟨hx, -⟩ := h x (by simp) s
    obtain ⟨hy, -⟩ := h y (by simp) s
    cases hop : c.operator <;> simp only [operation, hop] <;> rw [hop] at hoperand
    case comparison p =>
      have he := hoperand (by simp [Operator.family]) rfl (x := x) (by simp)
      have he' := hoperand (by simp [Operator.family]) rfl (x := y) (by simp)
      exact failsOnly_compare he he' (hx.mono he) (hy.mono he') p
    case and | or =>
      have he := hoperand (by simp [Operator.family]) rfl (x := x) (by simp)
      have he' := hoperand (by simp [Operator.family]) rfl (x := y) (by simp)
      exact (failsOnly_filterFrom (hx.mono he)).bind fun _ _ =>
        (failsOnly_filterFrom (hy.mono he')).bind fun _ _ => failsOnly_ok _
    case arithmetic =>
      have he := hoperand (by simp [Operator.family]) rfl (x := x) (by simp)
      have he' := hoperand (by simp [Operator.family]) rfl (x := y) (by simp)
      exact (failsOnly_valueFrom (hx.mono he)).bind fun _ _ =>
        (failsOnly_valueFrom (hy.mono he')).bind fun _ _ => failsOnly_ok _
    case cast =>
      have he := hoperand (by simp [Operator.family]) rfl (x := x) (by simp)
      exact failsOnly_cast hop he (fun _ => id) (hx.mono he)
    all_goals
      rw [← hop]
      exact failsOnly_refused rfl
  · exact failsOnly_error .operandsMoreThanTwo

/-- **An operand without steps has a reason**, and so has one whose negation has none. -/
theorem raises_own : ∀ (o : Operand) (s : Scope),
    (own s o).FailsOnly (Raises s o) ∧ (guard s o).FailsOnly (Raises s o)
  | .column i, s =>
    have hcolumn := failsOnly_columnSteps s i
    ⟨hcolumn, failsOnly_presenceFrom (o := .column i) (fun _ => id) hcolumn⟩
  | .constant l, s => ⟨failsOnly_ok _, failsOnly_ok _⟩
  | .target t, s => ⟨failsOnly_error (.operandType _), failsOnly_ok _⟩
  | .raw n, s => ⟨failsOnly_error (.operandType _), failsOnly_ok _⟩
  | .apply c text label os, s => by
    refine ⟨failsOnly_operation fun o _ => raises_own o, ?_⟩
    rw [guard]
    split
    · next hc =>
      exact failsOnly_presences (fun o ho e he => .operand (by simp [hc, Operator.family])
        (by simp [hc, Operator.isAggregate]) ho he) fun o ho => (raises_own o s).1
    · exact failsOnly_ok _

lemma raises_value (s : Scope) (o : Operand) : (o.value s).FailsOnly (Raises s o) :=
  failsOnly_valueFrom (raises_own o s).1

lemma raises_filter (s : Scope) (o : Operand) : (o.filter s).FailsOnly (Raises s o) :=
  failsOnly_filterFrom (raises_own o s).1

end

end Operand

/-! ### What planning does besides -/

/-- Whether a failure is over an operator or a column that has no steps. -/
def Failure.isOfSteps : Failure → Bool
  | .fault f => f.kind = .unknownOperator || f.kind = .columnNotGrouped
  | .missingOperand => false

/-- Work that fails over no operator and no column that has no steps. -/
def Outcome.IsStepless {α : Type} (x : Outcome α) : Prop := x.FailsOnly fun e => e.isOfSteps = false

lemma stepless_owner (s : Scope) (i : Identifier) : (s.owner i).IsStepless := by
  unfold Scope.owner
  dsimp only
  repeat' split
  all_goals first | exact failsOnly_ok _ | exact failsOnly_error rfl

namespace Operand

lemma stepless_textOf (n : Node) : (textOf n).IsStepless := by
  unfold textOf
  split
  · exact failsOnly_ok _
  · exact failsOnly_error rfl

mutual
lemma stepless_ofNode (n : Node) : (ofNode n).IsStepless := by
  cases n with
  | identifier | literal | typeSpec => exact failsOnly_ok _
  | call c ns =>
    rw [ofNode]
    split
    · exact FailsOnly.bind (failsOnly_ok _) fun _ _ =>
        FailsOnly.bind (stepless_textOf _) fun _ _ => failsOnly_ok _
    · exact FailsOnly.bind (stepless_ofNodes ns) fun _ _ =>
        FailsOnly.bind (stepless_textOf _) fun _ _ => failsOnly_ok _
  | _ => exact failsOnly_error rfl

lemma stepless_ofNodes (ns : List Node) : (ofNodes ns).IsStepless := by
  cases ns with
  | nil => exact failsOnly_ok _
  | cons n ns =>
    exact FailsOnly.bind (stepless_ofNode n) fun _ _ =>
      FailsOnly.bind (stepless_ofNodes ns) fun _ _ => failsOnly_ok _
end

lemma value_rename (s : Scope) (label : String) (o : Operand) :
    (o.rename label).value s = o.value s := by
  cases o <;> rfl

lemma stepless_type (s : Scope) (o : Operand) : (o.type s).IsStepless := by
  refine (failsOnly_type s o).mono ?_
  rintro e ⟨i, -, he⟩
  exact stepless_owner s i e he

end Operand

section

variable {s : Scope}

lemma stepless_item (used : List String) (n : Node) : (item s used n).IsStepless := by
  rw [item_eq]
  refine FailsOnly.bind ?_ fun ⟨e, a⟩ _ => FailsOnly.bind (Operand.stepless_ofNode e) fun o _ =>
    FailsOnly.bind ?_ fun _ _ => FailsOnly.bind ?_ fun _ _ => failsOnly_ok _
  · unfold unnamed
    repeat' split
    all_goals first | exact failsOnly_ok _ | exact failsOnly_error rfl
  · unfold wantedName
    split
    · exact failsOnly_ok _
    · cases o <;> first | exact failsOnly_ok _ | exact failsOnly_error rfl
  · unfold itemType
    split
    · exact failsOnly_ok _
    · exact Operand.stepless_type s o

lemma stepless_itemsFrom (used : List String) (ns : List Node) :
    (itemsFrom s used ns).IsStepless := by
  induction ns generalizing used with
  | nil => exact failsOnly_ok _
  | cons n ns ih =>
    exact FailsOnly.bind (stepless_item used n) fun _ _ =>
      FailsOnly.bind (ih _) fun _ _ => failsOnly_ok _

lemma stepless_keyName (n : Node) (o : Operand) : (keyName s n o).IsStepless := by
  cases o with
  | column i => exact FailsOnly.map _ (stepless_owner s i)
  | _ => exact Operand.stepless_textOf n

lemma stepless_sortOperand (items : List Item) (n : Node) :
    (sortOperand items n).IsStepless := by
  unfold sortOperand
  repeat' split
  all_goals
    first | exact failsOnly_ok _ | exact failsOnly_error rfl | exact Operand.stepless_ofNode _

/-- An entry of an ordering is a select item or an expression of its own. -/
lemma sortOperand_cases {items : List Item} {n : Node} {o : Operand}
    (h : sortOperand items n = .ok o) :
    (∃ x ∈ items, o = x.operand) ∨ Operand.ofNode n = .ok o := by
  unfold sortOperand at h
  split at h
  · split at h
    · next x hx =>
      cases h
      split at hx
      · exact .inl ⟨x, by simpa using List.mem_of_find?_eq_some hx, rfl⟩
      · cases hx
    · exact .inr h
  · split at h
    · split at h
      · next x hx =>
        cases h
        obtain ⟨i, -, hi⟩ := List.exists_of_findSome?_eq_some hx
        exact .inl ⟨x, List.mem_of_getElem? (Option.ite_none_right_eq_some.1 hi).2, rfl⟩
      · simp at h
    · exact .inr h
  · exact .inr h

lemma stepless_bind (s : Scope) (name : String) (t : Table) : (s.bind name t).IsStepless := by
  unfold Scope.bind
  split
  · exact failsOnly_error rfl
  · exact failsOnly_ok _

lemma stepless_table (c : Catalog) (name : String) : (c.table name).IsStepless := by
  unfold Catalog.table
  split
  · exact failsOnly_ok _
  · exact failsOnly_error rfl

lemma stepless_joinSteps (s : Scope) (t : TableRef) (condition : Option Node) :
    (joinSteps s t condition).IsStepless := by
  refine FailsOnly.bind (stepless_table _ _) fun table _ => FailsOnly.bind ?_ fun ⟨old, new⟩ _ =>
    FailsOnly.bind ?_ fun b _ => ?_
  · unfold joinColumns
    repeat' split
    all_goals first | exact failsOnly_ok _ | exact failsOnly_error rfl
  · unfold Scope.binding
    split
    · exact failsOnly_ok _
    · exact failsOnly_error rfl
  · dsimp only
    split
    · exact failsOnly_error rfl
    · refine FailsOnly.bind ?_ fun _ _ =>
        FailsOnly.bind (stepless_bind _ _ _) fun _ _ => failsOnly_ok _
      unfold Catalog.walk
      split
      · exact failsOnly_ok _
      · exact failsOnly_error rfl

lemma stepless_sourceSteps (s : Scope) (n : Node) : (sourceSteps s n).IsStepless := by
  induction n using sourceSteps.induct with
  | case1 t =>
    exact FailsOnly.bind (stepless_table _ _) fun _ _ =>
      FailsOnly.bind (stepless_bind _ _ _) fun _ _ => failsOnly_ok _
  | case2 left t condition ih =>
    exact FailsOnly.bind ih fun ⟨r, _⟩ _ =>
      FailsOnly.bind (stepless_joinSteps r t condition) fun _ _ => failsOnly_ok _
  | case3 | case4 | case5 =>
    simp_all only [sourceSteps]
    exact failsOnly_error rfl

/-! ### Plans -/

/-- An expression of the results of a query, and the use that is made of it. -/
inductive Select.Uses (q : Select) : Node → Operand.Use → Prop
  | item {n : Node} (h : n ∈ q.items) : q.Uses n.expression .value
  | having {n : Node} (h : n ∈ q.having) : q.Uses n .filter
  | sorting {k : SortKey Node} (h : k ∈ q.orderBy) : q.Uses k.expression .value

variable {c : Catalog} {q : Select}

/-- What is known of the rows of a query. -/
def Select.HasRows (q : Select) (c : Catalog) (row : Scope) : Prop :=
  ∃ n v, q.source = some n ∧ sourceSteps (.initial c) n = .ok (row, v)

/-- What is known where the results of a query are made: of its groups, or of its rows if they are
not grouped. -/
def Select.HasResults (q : Select) (c : Catalog) (s : Scope) : Prop :=
  ∃ row w, q.HasRows c row ∧ groupSteps row q = .ok (s, w)

/-- The failures of a query that has no plan, by the expressions that they are over. -/
inductive Select.FailsOver (q : Select) (c : Catalog) : Failure → Prop
  | filter {n : Node} {o : Operand} {row : Scope} {e : Failure} (hn : n ∈ q.filter)
      (hrow : q.HasRows c row) (ho : Operand.ofNode n = .ok o) (h : o.filter row = .error e) :
      q.FailsOver c e
  | key {n : Node} {o : Operand} {row : Scope} {e : Failure} (hn : n ∈ q.groupBy)
      (hrow : q.HasRows c row) (ho : Operand.ofNode n = .ok o) (h : o.value row = .error e) :
      q.FailsOver c e
  | value {n : Node} {o : Operand} {s : Scope} {e : Failure} (hn : q.Uses n .value)
      (hs : q.HasResults c s) (ho : Operand.ofNode n = .ok o) (h : o.value s = .error e) :
      q.FailsOver c e
  | having {n : Node} {o : Operand} {s : Scope} {e : Failure} (hn : n ∈ q.having)
      (hs : q.HasResults c s) (ho : Operand.ofNode n = .ok o) (h : o.filter s = .error e) :
      q.FailsOver c e
  | none {e : Failure} (h : e.isOfSteps = false) : q.FailsOver c e
  | within {e : Failure} (clause : String) (h : q.FailsOver c e) : q.FailsOver c (e.within clause)

lemma Outcome.IsStepless.failsOver {α : Type} {x : Outcome α} (h : x.IsStepless) :
    x.FailsOnly (q.FailsOver c) :=
  FailsOnly.mono h fun _ => .none

lemma failsOver_conditionSteps {clause : String} {n : Option Node}
    (h : ∀ m ∈ n, ∀ o, Operand.ofNode m = .ok o → (o.filter s).FailsOnly (q.FailsOver c)) :
    (conditionSteps s clause n).FailsOnly (q.FailsOver c) := by
  cases n with
  | none => exact failsOnly_ok _
  | some n =>
    exact ((Operand.stepless_ofNode n).failsOver.bind fun o ho => h n rfl o ho).inClause
      fun _ => .within clause

lemma failsOver_groupKeysFrom (hrow : q.HasRows c s) (keys : List (String × Steps))
    {ns : List Node} (hns : ∀ n ∈ ns, n ∈ q.groupBy) :
    (groupKeysFrom s keys ns).FailsOnly (q.FailsOver c) := by
  induction ns generalizing keys with
  | nil => exact failsOnly_ok _
  | cons n ns ih =>
    obtain ⟨hn, hns⟩ := List.forall_mem_cons.1 hns
    rw [groupKeysFrom]
    refine (Operand.stepless_ofNode n).failsOver.bind fun o ho =>
      (stepless_keyName n o).failsOver.bind fun name _ => ?_
    split
    · exact ih keys hns
    · exact FailsOnly.bind (fun e he => .key hn hrow ho he) fun _ _ => ih _ hns

/-- An item is read as its expression is. -/
lemma failsOver_item (hs : q.HasResults c s) {row : Scope} {items : List Item}
    (hitems : itemsFrom row [] q.items = .ok items) {x : Item} (hx : x ∈ items) :
    (x.operand.value s).FailsOnly (q.FailsOver c) := by
  obtain ⟨n, hn, used, hitem⟩ := exists_left_of_forall₂ (forall₂_itemsFrom hitems) x hx
  obtain ⟨e, o, he, ho, hoperand⟩ := item_cases hitem
  obtain rfl := expression_of_unnamed he
  rw [hoperand, Operand.value_rename]
  exact fun f hf => .value (.item hn) hs ho hf

/-- **A query without a plan fails over one of its expressions**, in the place where that is used,
or for another reason than that it has no steps. -/
theorem failsOver_plan (c : Catalog) (source : Option String) (maxRows : Option Int) (q : Select) :
    (plan c source maxRows q).FailsOnly (q.FailsOver c) := by
  cases ho : q.offset with
  | some o =>
    simp only [plan, ho]
    exact failsOnly_error (.none rfl)
  | none =>
    cases hn : q.source with
    | none =>
      simp only [plan, ho, hn]
      exact failsOnly_error (.none rfl)
    | some n =>
      rw [plan_of_source ho hn]
      refine ((stepless_sourceSteps _ n).failsOver.inClause fun _ => .within _).bind ?_
      rintro ⟨row, v⟩ hsource
      have hrow : q.HasRows c row := ⟨n, v, hn, inClause_eq_ok.1 hsource⟩
      refine .bind ?_ fun _ _ =>
        ((stepless_itemsFrom [] q.items).failsOver.inClause fun _ => .within _).bind
          fun items hitems => .bind ?_ fun ⟨s, w⟩ hgrouped => ?_
      · exact failsOver_conditionSteps fun m hm o ho e he => .filter hm hrow ho he
      · unfold groupSteps
        split
        · exact ((failsOver_groupKeysFrom hrow [] fun _ => id).bind fun _ _ =>
            failsOnly_ok _).inClause fun _ => .within _
        · exact failsOnly_ok _
      have hs : q.HasResults c s := ⟨row, w, hrow, hgrouped⟩
      have hitems := inClause_eq_ok.1 hitems
      refine .bind ?_ fun _ _ => (FailsOnly.inClause ?_ fun _ => .within _).bind fun _ _ =>
        (FailsOnly.inClause ?_ fun _ => .within _).bind fun _ _ => failsOnly_ok _
      · exact failsOver_conditionSteps fun m hm o ho e he => .having hm hs ho he
      · unfold orderSteps
        split
        · exact failsOnly_ok _
        refine (FailsOnly.mapM fun k hk => ?_).bind fun _ _ => failsOnly_ok _
        refine (stepless_sortOperand items _).failsOver.bind fun o ho =>
          FailsOnly.bind ?_ fun _ _ => failsOnly_ok _
        obtain ⟨x, hx, rfl⟩ | ho := sortOperand_cases ho
        · exact failsOver_item hs hitems hx
        · exact fun e he => .value (.sorting hk) hs ho he
      · exact (FailsOnly.mapM fun x hx => failsOver_item hs hitems hx).bind fun _ _ =>
          failsOnly_ok _

end

end GraphSelect
