import GraphSelect.Operand.Steps
import Mathlib.Tactic.Common

/-!
The rules by which operands become steps.

What an operand becomes depends on its use: in itself, as a value, as a filter, for its presence or
absence, or as what its negation asks for. Each rule says what one operator needs of its operands
and what it makes of their steps, and every operand that becomes steps does so by these rules. An
invariant of the steps is an induction over them.
-/

namespace GraphSelect.Operand

inductive Use where
  | itself | value | filter | presence | absence
  /-- What has to be present for a negation to hold. -/
  | guard

/-- The two sides of a comparison of an operand with a constant, on whichever side that stands. -/
inductive Against (o : Operand) (l : Literal) : Comparison → List Operand → Comparison → Prop
  | right {p : Comparison} : Against o l p [o, .constant l] p
  | left {p : Comparison} : Against o l p [.constant l, o] p.flip

/-- The steps that an operand becomes in a use. -/
inductive Becomes : Use → Scope → Operand → Steps → Prop
  | column {s : Scope} {i : Identifier} {v : Steps} (h : s.columnSteps i = .ok v) :
      Becomes .itself s (.column i) v
  | constant {s : Scope} (l : Literal) : Becomes .itself s (.constant l) [.constant l.native]
  | isNull {s : Scope} {c : Call} {text label : String} {x : Operand} {v : Steps}
      (hc : c.operator = .isNull) (h : Becomes .absence s x v) :
      Becomes .itself s (.apply c text label [x]) v
  | isNotNull {s : Scope} {c : Call} {text label : String} {x : Operand} {v : Steps}
      (hc : c.operator = .isNotNull) (h : Becomes .presence s x v) :
      Becomes .itself s (.apply c text label [x]) v
  | not {s : Scope} {c : Call} {text label : String} {x : Operand} {g f : Steps}
      (hc : c.operator = .not) (hg : Becomes .guard s x g) (h : Becomes .filter s x f) :
      Becomes .itself s (.apply c text label [x]) (g ++ [.not f])
  | negate {s : Scope} {c : Call} {text label : String} {x : Operand} {v : Steps}
      (hc : c.operator = .negate) (h : Becomes .value s x v) :
      Becomes .itself s (.apply c text label [x]) (v ++ [.math "-_"])
  | count {s : Scope} {c : Call} {text label : String} {i : Identifier}
      (hc : c.operator = .aggregate .count) (hs : s.isGrouped) (ha : s.inAggregate = false)
      (hi : i.isStar) :
      Becomes .itself s (.apply c text label [.column i]) (s.groupRowSteps ++ [.reduce .count])
  | aggregate {s : Scope} {c : Call} {text label : String} {a : Aggregate} {x : Operand} {v : Steps}
      (hc : c.operator = .aggregate a) (hs : s.isGrouped) (ha : s.inAggregate = false)
      (h : Becomes .value s.aggregated x v) :
      Becomes .itself s (.apply c text label [x])
        (s.groupRowSteps ++ v ++ (if c.distinct then [.dedup] else []) ++ [.reduce a])
  | compareColumn {s : Scope} {c : Call} {text label : String} {p q : Comparison} {i : Identifier}
      {l : Literal} {os : List Operand} {v : Steps} (hc : c.operator = .comparison p)
      (hos : Against (.column i) l p os q) (hs : s.isRowContext)
      (h : columnFilter s i (fun property => .hasValue property q l.native) = .ok v) :
      Becomes .itself s (.apply c text label os) v
  | compareConstant {s : Scope} {c : Call} {text label : String} {p q : Comparison} {x : Operand}
      {l : Literal} {os : List Operand} {v : Steps} (hc : c.operator = .comparison p)
      (hos : Against x l p os q) (h : Becomes .value s x v) :
      Becomes .itself s (.apply c text label os) [.whereEmits (v ++ [.satisfies q l.native])]
  | compare {s : Scope} {c : Call} {text label : String} {p : Comparison} {x y : Operand}
      {v w : Steps} (hc : c.operator = .comparison p) (hx : Becomes .value s x v)
      (hy : Becomes .value s y w) :
      Becomes .itself s (.apply c text label [x, y])
        [.whereEmits (pair v w ++ [.whereEntries "lhs" p "rhs"])]
  | and {s : Scope} {c : Call} {text label : String} {x y : Operand} {f g : Steps}
      (hc : c.operator = .and) (hx : Becomes .filter s x f) (hy : Becomes .filter s y g) :
      Becomes .itself s (.apply c text label [x, y]) [.and [f, g]]
  | or {s : Scope} {c : Call} {text label : String} {x y : Operand} {f g : Steps}
      (hc : c.operator = .or) (hx : Becomes .filter s x f) (hy : Becomes .filter s y g) :
      Becomes .itself s (.apply c text label [x, y]) [.or [f, g]]
  | arithmetic {s : Scope} {c : Call} {text label : String} {a : Arithmetic} {x y : Operand}
      {v w : Steps} (hc : c.operator = .arithmetic a) (hx : Becomes .value s x v)
      (hy : Becomes .value s y w) :
      Becomes .itself s (.apply c text label [x, y])
        (pair v w ++ [.math ("lhs " ++ a.symbol ++ " rhs")])
  | cast {s : Scope} {c : Call} {text label : String} {x : Operand} {t : TypeSpec} {old : TypeName}
      {v : Steps} (hc : c.operator = .cast) (hold : x.type s = .ok old)
      (hnew : t.type = .varchar ∨ t.type = old) (h : Becomes .value s x v) :
      Becomes .itself s (.apply c text label [x, .target t])
        (v ++ if t.type = .varchar ∧ old ≠ .varchar then [.asString] else [])
  | key {s : Scope} {c : Call} {text label : String} {os : List Operand} (h : s.isGroupKey text) :
      Becomes .value s (.apply c text label os) (Scope.groupKeySteps text)
  | truth {s : Scope} {c : Call} {text label : String} {os : List Operand} {v : Steps}
      (h : Becomes .itself s (.apply c text label os) v) :
      Becomes .value s (.apply c text label os) (truthOf v)
  | read {s : Scope} {o : Operand} {v : Steps} (h : Becomes .itself s o v) : Becomes .value s o v
  | condition {s : Scope} {c : Call} {text label : String} {os : List Operand} {v : Steps}
      (h : Becomes .itself s (.apply c text label os) v) :
      Becomes .filter s (.apply c text label os) v
  | holds {s : Scope} {o : Operand} {v : Steps} (h : Becomes .value s o v) :
      Becomes .filter s o (holds v)
  | has {s : Scope} {i : Identifier} {v : Steps} (hs : s.isRowContext)
      (h : columnFilter s i .has = .ok v) : Becomes .presence s (.column i) v
  | present {s : Scope} {o : Operand} {v : Steps} (h : Becomes .value s o v) :
      Becomes .presence s o [.whereEmits v]
  | hasNot {s : Scope} {i : Identifier} {v : Steps} (hs : s.isRowContext)
      (h : columnFilter s i .hasNot = .ok v) : Becomes .absence s (.column i) v
  | absent {s : Scope} {o : Operand} {v : Steps} (h : Becomes .value s o v) :
      Becomes .absence s o [.not v]
  | guardColumn {s : Scope} {i : Identifier} {v : Steps} (h : Becomes .presence s (.column i) v) :
      Becomes .guard s (.column i) v
  | guardNone {s : Scope} (o : Operand) : Becomes .guard s o []
  | guardMore {s : Scope} {c : Call} {text label : String} {x : Operand} {os : List Operand}
      {v g : Steps} (h : Becomes .presence s x v)
      (hg : Becomes .guard s (.apply c text label os) g) :
      Becomes .guard s (.apply c text label (x :: os)) (v ++ g)
  | guardSkip {s : Scope} {c : Call} {text label : String} {x : Operand} {os : List Operand}
      {g : Steps} (hg : Becomes .guard s (.apply c text label os) g) :
      Becomes .guard s (.apply c text label (x :: os)) g

/-! ### What becomes steps does so by the rules -/

section

variable {s : Scope} {o o' : Operand} {v : Steps}

lemma becomes_value (ho : ∀ w, own s o = .ok w → Becomes .itself s o w)
    (h : o.valueFrom s (own s o) = .ok v) : Becomes .value s o v := by
  unfold valueFrom at h
  split at h
  · split at h
    · next hkey =>
      cases h
      exact .key hkey
    · split at h
      · obtain ⟨w, hw, rfl⟩ := Outcome.map_eq_ok.1 h
        exact .truth (ho w hw)
      · exact .read (ho v h)
  · exact .read (ho v h)

lemma becomes_filter (ho : ∀ w, own s o = .ok w → Becomes .itself s o w)
    (h : o.filterFrom s (own s o) = .ok v) : Becomes .filter s o v := by
  unfold filterFrom at h
  split at h
  · split at h
    · exact .condition (ho v h)
    · obtain ⟨w, hw, rfl⟩ := Outcome.map_eq_ok.1 h
      exact .holds (becomes_value ho hw)
  · obtain ⟨w, hw, rfl⟩ := Outcome.map_eq_ok.1 h
    exact .holds (.read (ho w hw))

lemma becomes_presence (ho : ∀ w, own s o = .ok w → Becomes .itself s o w)
    (h : o.presenceFrom s (own s o) = .ok v) : Becomes .presence s o v := by
  unfold presenceFrom at h
  split at h
  · split at h
    · next hs => exact .has hs h
    · obtain ⟨w, hw, rfl⟩ := Outcome.map_eq_ok.1 h
      exact .present (.read (ho w hw))
  · obtain ⟨w, hw, rfl⟩ := Outcome.map_eq_ok.1 h
    exact .present (becomes_value ho hw)

lemma becomes_absence (ho : ∀ w, own s o = .ok w → Becomes .itself s o w)
    (h : o.absenceFrom s (own s o) = .ok v) : Becomes .absence s o v := by
  unfold absenceFrom at h
  split at h
  · split at h
    · next hs => exact .hasNot hs h
    · obtain ⟨w, hw, rfl⟩ := Outcome.map_eq_ok.1 h
      exact .absent (.read (ho w hw))
  · obtain ⟨w, hw, rfl⟩ := Outcome.map_eq_ok.1 h
    exact .absent (becomes_value ho hw)

variable {c : Call} {text label : String} {p q : Comparison} {l : Literal} {os : List Operand}

lemma becomes_compareConstant (hc : c.operator = .comparison p) (hos : Against o l p os q)
    (ho : ∀ w, own s o = .ok w → Becomes .itself s o w)
    (h : compareConstant s q (own s o) o l = .ok v) :
    Becomes .itself s (.apply c text label os) v := by
  have hvalue (h : (o.valueFrom s (own s o)).map
      (fun v => [.whereEmits (v ++ [.satisfies q l.native])]) = .ok v) :
      Becomes .itself s (.apply c text label os) v := by
    obtain ⟨w, hw, rfl⟩ := Outcome.map_eq_ok.1 h
    exact .compareConstant hc hos (becomes_value ho hw)
  unfold compareConstant at h
  split at h
  · next hnull => exact hvalue (by rw [hnull]; exact h)
  · split at h
    · next hs => exact .compareColumn hc hos hs h
    · exact hvalue h
  · exact hvalue h

lemma becomes_compare (hc : c.operator = .comparison p)
    (ho : ∀ w, own s o = .ok w → Becomes .itself s o w)
    (ho' : ∀ w, own s o' = .ok w → Becomes .itself s o' w)
    (h : compare s p o o' (own s o) (own s o') = .ok v) :
    Becomes .itself s (.apply c text label [o, o']) v := by
  unfold compare at h
  split at h
  · exact becomes_compareConstant hc .right ho h
  · exact becomes_compareConstant hc .left ho' h
  · obtain ⟨w, hw, h⟩ := Outcome.bind_eq_ok.1 h
    obtain ⟨w', hw', h⟩ := Outcome.bind_eq_ok.1 h
    cases h
    exact .compare hc (becomes_value ho hw) (becomes_value ho' hw')

lemma becomes_cast (hc : c.operator = .cast) (ho : ∀ w, own s o = .ok w → Becomes .itself s o w)
    (h : cast s o o' (own s o) = .ok v) : Becomes .itself s (.apply c text label [o, o']) v := by
  unfold cast at h
  split at h
  · next t =>
    obtain ⟨old, hold, h⟩ := Outcome.bind_eq_ok.1 h
    have hcast {w : Steps} (hnew : t.type = .varchar ∨ t.type = old) (h : Becomes .value s o w) :
        Becomes .itself s (.apply c text label [o, .target t])
          (w ++ if t.type = .varchar ∧ old ≠ .varchar then [.asString] else []) :=
      .cast hc hold hnew h
    split at h
    · next hnew =>
      obtain ⟨w, hw, h⟩ := Outcome.bind_eq_ok.1 h
      cases h
      have := hcast (.inl hnew) (becomes_value ho hw)
      by_cases hvarchar : old = .varchar <;> simpa [hnew, hvarchar] using this
    · next hnew =>
      split at h
      · next hsame =>
        simpa [hnew] using hcast (.inr hsame) (becomes_value ho h)
      · simp at h
  · simp at h

lemma becomes_aggregate {a : Aggregate} (hc : c.operator = .aggregate a) (hs : s.isGrouped)
    (ha : s.inAggregate = false)
    (ho : ∀ w, own s.aggregated o = .ok w → Becomes .itself s.aggregated o w)
    (h : aggregate s a c.distinct o (own s.aggregated o) = .ok v) :
    Becomes .itself s (.apply c text label [o]) v := by
  have hrows (h : (o.valueFrom s.aggregated (own s.aggregated o)).map (fun v =>
      s.groupRowSteps ++ v ++ (if c.distinct then [.dedup] else []) ++ [.reduce a]) = .ok v) :
      Becomes .itself s (.apply c text label [o]) v := by
    obtain ⟨w, hw, rfl⟩ := Outcome.map_eq_ok.1 h
    exact .aggregate hc hs ha (becomes_value ho hw)
  cases o with
  | column i =>
    simp only [aggregate] at h
    split at h
    · next hstar =>
      split at h
      · next hcount =>
        cases h
        subst hcount
        exact .count hc hs ha hstar
      · simp at h
    · exact hrows h
  | _ => exact hrows h

end

mutual
theorem becomes_own {s : Scope} {o : Operand} {v : Steps} (h : own s o = .ok v) :
    Becomes .itself s o v := by
  cases o with
  | column i => exact .column h
  | constant l =>
    cases h
    exact .constant l
  | apply c text label os => exact becomes_operation h
  | _ => simp [own] at h

theorem becomes_operation {s : Scope} {c : Call} {text label : String} {os : List Operand}
    {v : Steps} (h : operation s c os = .ok v) : Becomes .itself s (.apply c text label os) v := by
  obtain _ | ⟨x, _ | ⟨y, _ | _⟩⟩ := os
  · simp [operation] at h
  · have hx (s : Scope) (w : Steps) (h : own s x = .ok w) : Becomes .itself s x w := becomes_own h
    cases hop : c.operator <;> simp only [operation, hop] at h
    case isNull => exact .isNull hop (becomes_absence (hx s) h)
    case isNotNull => exact .isNotNull hop (becomes_presence (hx s) h)
    case not =>
      obtain ⟨g, hg, h⟩ := Outcome.bind_eq_ok.1 h
      obtain ⟨f, hf, h⟩ := Outcome.bind_eq_ok.1 h
      cases h
      exact .not hop (becomes_guard hg) (becomes_filter (hx s) hf)
    case negate =>
      obtain ⟨w, hw, rfl⟩ := Outcome.map_eq_ok.1 h
      exact .negate hop (becomes_value (hx s) hw)
    case aggregate a =>
      split at h
      · simp at h
      · next hs =>
        simp only [Bool.or_eq_true, Bool.not_eq_eq_eq_not, Bool.not_true, not_or,
          Bool.not_eq_false, Bool.not_eq_true] at hs
        exact becomes_aggregate hop hs.1 hs.2 (hx s.aggregated) h
    all_goals simp [Operator.family, mismatch] at h
  · have hx (w : Steps) (h : own s x = .ok w) : Becomes .itself s x w := becomes_own h
    have hy (w : Steps) (h : own s y = .ok w) : Becomes .itself s y w := becomes_own h
    cases hop : c.operator <;> simp only [operation, hop] at h
    case comparison => exact becomes_compare hop hx hy h
    case and =>
      obtain ⟨f, hf, h⟩ := Outcome.bind_eq_ok.1 h
      obtain ⟨g, hg, h⟩ := Outcome.bind_eq_ok.1 h
      cases h
      exact .and hop (becomes_filter hx hf) (becomes_filter hy hg)
    case or =>
      obtain ⟨f, hf, h⟩ := Outcome.bind_eq_ok.1 h
      obtain ⟨g, hg, h⟩ := Outcome.bind_eq_ok.1 h
      cases h
      exact .or hop (becomes_filter hx hf) (becomes_filter hy hg)
    case arithmetic =>
      obtain ⟨w, hw, h⟩ := Outcome.bind_eq_ok.1 h
      obtain ⟨w', hw', h⟩ := Outcome.bind_eq_ok.1 h
      cases h
      exact .arithmetic hop (becomes_value hx hw) (becomes_value hy hw')
    case cast => exact becomes_cast hop hx h
    all_goals simp [Operator.family, mismatch] at h
  · simp [operation] at h

theorem becomes_guard {s : Scope} {o : Operand} {v : Steps} (h : guard s o = .ok v) :
    Becomes .guard s o v := by
  cases o with
  | column i => exact .guardColumn (becomes_presence (fun w hw => .column hw) h)
  | apply c text label os =>
    simp only [guard] at h
    split at h
    · exact becomes_presences h
    · cases h
      exact .guardNone _
  | _ =>
    cases h
    exact .guardNone _

theorem becomes_presences {s : Scope} {c : Call} {text label : String} {os : List Operand}
    {v : Steps} (h : presences s os = .ok v) : Becomes .guard s (.apply c text label os) v := by
  cases os with
  | nil =>
    cases h
    exact .guardNone _
  | cons x os =>
    simp only [presences] at h
    split at h
    · obtain ⟨first, hfirst, h⟩ := Outcome.bind_eq_ok.1 h
      obtain ⟨rest, hrest, h⟩ := Outcome.bind_eq_ok.1 h
      cases hfirst
      cases h
      exact .guardSkip (becomes_presences hrest)
    · obtain ⟨first, hfirst, h⟩ := Outcome.bind_eq_ok.1 h
      obtain ⟨rest, hrest, h⟩ := Outcome.bind_eq_ok.1 h
      cases h
      exact .guardMore (becomes_presence (fun w hw => becomes_own hw) hfirst)
        (becomes_presences hrest)
end

variable {s : Scope} {o : Operand} {v : Steps}

theorem becomes_of_value (h : o.value s = .ok v) : Becomes .value s o v :=
  becomes_value (fun _ => becomes_own) h

theorem becomes_of_filter (h : o.filter s = .ok v) : Becomes .filter s o v :=
  becomes_filter (fun _ => becomes_own) h

end GraphSelect.Operand
