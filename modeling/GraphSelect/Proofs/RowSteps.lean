import GraphSelect.Query.Node.Parts
import GraphSelect.Proofs.Rows

/-!
What has steps at a row.

An expression that becomes steps at a row has as many operands everywhere as its operators take,
columns that belong to tables, and no aggregates. This is all that its steps need elsewhere, as long
as its columns can be read there and no call in it is taken for a group key by its text.
-/

namespace GraphSelect

/-! ### Texts of calls -/

/-- Whether a text has a character that stands between the parts of an expression. -/
def isBroken (text : String) : Bool :=
  text.toList.any fun c => c = ' ' || c = '(' || c = '-'

@[simp] lemma isBroken_append (s t : String) : isBroken (s ++ t) = (isBroken s || isBroken t) := by
  simp [isBroken]

namespace Node

/-- The columns in an expression. -/
def columns (n : Node) : List Identifier :=
  n.parts.filterMap fun
    | .identifier i => some i
    | _ => none

/-- The text of a call shows how it is put together. -/
lemma isBroken_callText {c : Call} {plain nested : List (Option String)} {text : String}
    (h : callText? c plain nested = some text) : isBroken text := by
  have hbefore (hform : c.operator.form = .before) :
      isBroken (c.operator.name ++ if isWord c.operator then " " else "") := by
    cases hop : c.operator <;> simp_all [Operator.form] <;> decide
  unfold callText? at h
  split at h <;> simp only [Option.bind_eq_bind, Option.bind_eq_some_iff, Option.pure_def,
    Option.some.injEq, reduceCtorEq] at h
  case h_1 | h_8 =>
    obtain ⟨a, -, b, -, rfl⟩ := h
    simp [isBroken]
  case h_6 hform _ _ _ _ =>
    obtain ⟨a, -, rfl⟩ := h
    rw [isBroken_append, hbefore hform, Bool.true_or]
  all_goals
    obtain ⟨a, -, rfl⟩ := h
    simp [isBroken]

lemma columns_call {c : Call} (hc : c.operator ≠ .scalarQuery) (ns : List Node) :
    (Node.call c ns).columns = ns.flatMap columns := by
  simp only [columns, parts, hc, partsEach_eq_flatMap, if_false, List.filterMap_cons,
    List.filterMap_flatMap]
  rfl

end Node

/-! ### Operands with steps -/

namespace Operand

variable {s : Scope} {o o' : Operand} {v : Steps}

lemma valueFrom_eq_ok (hs : s.isRowContext) {own : Outcome Steps}
    (h : o.valueFrom s own = .ok v) : ∃ w, own = .ok w := by
  unfold valueFrom at h
  split at h
  · rw [if_neg (by simp [Scope.isGroupKey_of_isRowContext hs])] at h
    split at h
    · obtain ⟨w, hw, -⟩ := Outcome.map_eq_ok.1 h
      exact ⟨w, hw⟩
    · exact ⟨v, h⟩
  · exact ⟨v, h⟩

lemma filterFrom_eq_ok (hs : s.isRowContext) {own : Outcome Steps}
    (h : o.filterFrom s own = .ok v) : ∃ w, own = .ok w := by
  unfold filterFrom at h
  split at h
  · split at h
    · exact ⟨v, h⟩
    · obtain ⟨w, hw, -⟩ := Outcome.map_eq_ok.1 h
      exact valueFrom_eq_ok hs hw
  · obtain ⟨w, hw, -⟩ := Outcome.map_eq_ok.1 h
    exact ⟨w, hw⟩

lemma columnFilter_eq_ok (hs : s.isRowContext) {i : Identifier} {f : String → Step}
    (h : columnFilter s i f = .ok v) : ∃ w, own s (.column i) = .ok w := by
  obtain ⟨⟨b, c⟩, ho, -⟩ := Outcome.map_eq_ok.1 h
  exact ⟨s.propertySteps b.name c.property, by simp [own, Scope.columnSteps, ho, hs]⟩

lemma presenceFrom_eq_ok (hs : s.isRowContext) (h : o.presenceFrom s (own s o) = .ok v) :
    ∃ w, own s o = .ok w := by
  unfold presenceFrom at h
  split at h
  · rw [if_pos hs] at h
    exact columnFilter_eq_ok hs h
  · obtain ⟨w, hw, -⟩ := Outcome.map_eq_ok.1 h
    exact valueFrom_eq_ok hs hw

lemma absenceFrom_eq_ok (hs : s.isRowContext) (h : o.absenceFrom s (own s o) = .ok v) :
    ∃ w, own s o = .ok w := by
  unfold absenceFrom at h
  split at h
  · rw [if_pos hs] at h
    exact columnFilter_eq_ok hs h
  · obtain ⟨w, hw, -⟩ := Outcome.map_eq_ok.1 h
    exact valueFrom_eq_ok hs hw

lemma compareConstant_eq_ok (hs : s.isRowContext) {p : Comparison} {l : Literal}
    (h : compareConstant s p (own s o) o l = .ok v) : ∃ w, own s o = .ok w := by
  unfold compareConstant at h
  split at h
  · obtain ⟨w, hw, -⟩ := Outcome.map_eq_ok.1 h
    exact valueFrom_eq_ok hs hw
  · rw [if_pos hs] at h
    exact columnFilter_eq_ok hs h
  · obtain ⟨w, hw, -⟩ := Outcome.map_eq_ok.1 h
    exact valueFrom_eq_ok hs hw

lemma compare_eq_ok (hs : s.isRowContext) {p : Comparison}
    (h : compare s p o o' (own s o) (own s o') = .ok v) :
    (∃ w, own s o = .ok w) ∧ ∃ w, own s o' = .ok w := by
  unfold compare at h
  split at h
  · exact ⟨compareConstant_eq_ok hs h, _, rfl⟩
  · exact ⟨⟨_, rfl⟩, compareConstant_eq_ok hs h⟩
  · obtain ⟨l, hl, h⟩ := Outcome.bind_eq_ok.1 h
    obtain ⟨r, hr, -⟩ := Outcome.bind_eq_ok.1 h
    exact ⟨valueFrom_eq_ok hs hl, valueFrom_eq_ok hs hr⟩

lemma cast_eq_ok (hs : s.isRowContext) (h : cast s o o' (own s o) = .ok v) :
    ∃ t old, o' = .target t ∧ o.type s = .ok old ∧ (t.type = .varchar ∨ t.type = old) ∧
      ∃ w, own s o = .ok w := by
  unfold cast at h
  split at h
  · next t =>
    obtain ⟨old, hold, h⟩ := Outcome.bind_eq_ok.1 h
    refine ⟨t, old, rfl, hold, ?_⟩
    split at h
    · next hnew =>
      obtain ⟨w, hw, -⟩ := Outcome.bind_eq_ok.1 h
      exact ⟨.inl hnew, valueFrom_eq_ok hs hw⟩
    · split at h
      · next hnew => exact ⟨.inr hnew, valueFrom_eq_ok hs h⟩
      · simp at h
  · simp at h

variable {col : Identifier → Prop} {c : Call} {text label : String} {os : List Operand}

/-- A call with steps at a row has operands with steps, as many as its operator takes. -/
lemma evaluable_apply (hs : s.isRowContext) (ht : isBroken text)
    (hos : ∀ o ∈ os, (∃ w, own s o = .ok w) → o.Evaluable (Operand.type s) col (isBroken ·))
    (h : operation s c os = .ok v) :
    (Operand.apply c text label os).Evaluable (Operand.type s) col (isBroken ·) := by
  obtain _ | ⟨x, _ | ⟨y, _ | _⟩⟩ := os
  · simp [operation] at h
  · have one (hc : c.operator.takesOne) (hx : ∃ w, own s x = .ok w) :
        (Operand.apply c text label [x]).Evaluable (Operand.type s) col (isBroken ·) :=
      .one hc ht (hos x (by simp) hx)
    cases hop : c.operator <;> simp only [operation, hop] at h
    case isNull => exact one (by simp [hop]) (absenceFrom_eq_ok hs h)
    case isNotNull => exact one (by simp [hop]) (presenceFrom_eq_ok hs h)
    case not =>
      obtain ⟨g, -, h⟩ := Outcome.bind_eq_ok.1 h
      obtain ⟨f, hf, -⟩ := Outcome.bind_eq_ok.1 h
      exact one (by simp [hop]) (filterFrom_eq_ok hs hf)
    case negate =>
      obtain ⟨w, hw, -⟩ := Outcome.map_eq_ok.1 h
      exact one (by simp [hop]) (valueFrom_eq_ok hs hw)
    case aggregate => simp_all [Scope.isRowContext]
    all_goals simp [Operator.family, mismatch] at h
  · have two (hc : c.operator.takesTwo) (hx : ∃ w, own s x = .ok w) (hy : ∃ w, own s y = .ok w) :
        (Operand.apply c text label [x, y]).Evaluable (Operand.type s) col (isBroken ·) :=
      .two hc ht (hos x (by simp) hx) (hos y (by simp) hy)
    cases hop : c.operator <;> simp only [operation, hop] at h
    case comparison =>
      obtain ⟨hx, hy⟩ := compare_eq_ok hs h
      exact two (by simp [hop]) hx hy
    case and | or =>
      obtain ⟨f, hf, h⟩ := Outcome.bind_eq_ok.1 h
      obtain ⟨g, hg, -⟩ := Outcome.bind_eq_ok.1 h
      exact two (by simp [hop]) (filterFrom_eq_ok hs hf) (filterFrom_eq_ok hs hg)
    case arithmetic =>
      obtain ⟨l, hl, h⟩ := Outcome.bind_eq_ok.1 h
      obtain ⟨r, hr, -⟩ := Outcome.bind_eq_ok.1 h
      exact two (by simp [hop]) (valueFrom_eq_ok hs hl) (valueFrom_eq_ok hs hr)
    case cast =>
      obtain ⟨t, old, rfl, hold, hnew, hx⟩ := cast_eq_ok hs h
      exact .cast hop ht (hos x (by simp) hx) hold hnew
    all_goals simp [Operator.family, mismatch] at h
  · simp [operation] at h

lemma isBroken_textOf {nodes : List Node} (h : textOf (.call c nodes) = .ok text) :
    isBroken text := by
  unfold textOf at h
  split at h
  · next t ht =>
    cases h
    exact Node.isBroken_callText (by simpa [Node.sql?] using ht)
  · simp at h

mutual
/-- What has steps at a row can be evaluated wherever its columns can be read. -/
lemma evaluable_ofNode (hs : s.isRowContext) (n : Node) (o : Operand) (v : Steps)
    (hcol : ∀ i ∈ n.columns, s.Owns i → col i) (hn : ofNode n = .ok o) (ho : own s o = .ok v) :
    o.Evaluable (Operand.type s) col (isBroken ·) := by
  cases n with
  | identifier i =>
    cases hn
    obtain ⟨⟨b, c⟩, hb, -⟩ := Outcome.bind_eq_ok.1 ho
    exact .column (hcol i (by simp [Node.columns, Node.parts]) ⟨b, c, hb⟩)
  | literal l =>
    cases hn
    exact .constant l
  | typeSpec t =>
    cases hn
    simp [own] at ho
  | call c nodes =>
    have hos : ∃ os text, isBroken text ∧ o = .apply c text text os ∧
        ∀ p ∈ os, (∃ w, own s p = .ok w) → p.Evaluable (Operand.type s) col (isBroken ·) := by
      simp only [ofNode] at hn
      split at hn
      · rw [Outcome.ok_bind] at hn
        obtain ⟨text, ht, hn⟩ := Outcome.bind_eq_ok.1 hn
        cases hn
        exact ⟨_, text, isBroken_textOf ht, rfl, by simp [own]⟩
      · next hc =>
        obtain ⟨os, hos, hn⟩ := Outcome.bind_eq_ok.1 hn
        obtain ⟨text, ht, hn⟩ := Outcome.bind_eq_ok.1 hn
        cases hn
        have hquery : c.operator ≠ .scalarQuery := fun h => hc (by simp [h, Operator.family])
        rw [Node.columns_call hquery] at hcol
        exact ⟨os, text, isBroken_textOf ht, rfl, evaluable_ofNodes hs nodes os hcol hos⟩
    obtain ⟨os, text, ht, rfl, hos⟩ := hos
    exact evaluable_apply hs ht hos ho
  | _ => simp [ofNode] at hn

lemma evaluable_ofNodes (hs : s.isRowContext) (ns : List Node) (os : List Operand)
    (hcol : ∀ i ∈ ns.flatMap Node.columns, s.Owns i → col i) (hns : ofNodes ns = .ok os) :
    ∀ o ∈ os, (∃ w, own s o = .ok w) → o.Evaluable (Operand.type s) col (isBroken ·) := by
  cases ns with
  | nil =>
    cases hns
    simp
  | cons n ns =>
    unfold ofNodes at hns
    obtain ⟨p, hp, hns⟩ := Outcome.bind_eq_ok.1 hns
    obtain ⟨ps, hps, hns⟩ := Outcome.bind_eq_ok.1 hns
    cases hns
    intro o ho ⟨w, hw⟩
    rcases List.mem_cons.1 ho with rfl | ho
    · exact evaluable_ofNode hs n o w (fun i hi => hcol i (by simp [hi])) hp hw
    · exact evaluable_ofNodes hs ns ps (fun i hi => hcol i (List.mem_append_right _ hi)) hps o ho
        ⟨w, hw⟩
end

end Operand

end GraphSelect
