import GraphSelect.Proofs.Execution

/-!
An executor for any graph, written out: it takes the steps one after the other and keeps every
promise. Steps that nothing is promised about emit nothing.

The properties of its graphs are plain values. Numbers of all kinds compare, but only whole numbers
are computed with.
-/

namespace GraphSelect

/-! ### Plain values as data -/

lemma Quantity.order_swap (x y : Quantity) : (x.order y).swap = y.order x := by
  rcases x with ⟨a, b, k⟩ | s <;> rcases y with ⟨c, d, l⟩ | t
  · rw [order_finite, order_finite, ← Std.OrientedOrd.eq_swap]
  · cases t <;> rfl
  · cases s <;> rfl
  · cases s <;> cases t <;> rfl

/-- Whether a comparison holds of values that stand to each other in a given way. -/
def Comparison.holds : Comparison → Ordering → Bool
  | .equal, o => o = .eq
  | .notEqual, o => o ≠ .eq
  | .less, o => o = .lt
  | .greater, o => o = .gt
  | .lessOrEqual, o => o ≠ .gt
  | .greaterOrEqual, o => o ≠ .lt

lemma Comparison.holds_flip (c : Comparison) (o : Ordering) : c.flip.holds o = c.holds o.swap := by
  cases c <;> cases o <;> rfl

namespace Value

/-- The number that a value is. Truth values are none. -/
def number? : Value → Option Quantity
  | .bool _ => none
  | v => v.quantity?

/-- How the first of two values stands to the second. Values of different sorts do not compare. -/
def order? : Value → Value → Option Ordering
  | .null, .null => some .eq
  | .text s, .text t => some (compare s t)
  | .bool b, .bool c => some (compare b c)
  | v, w => v.number?.bind fun x => w.number?.map x.order

lemma order?_swap (v w : Value) : (order? v w).map Ordering.swap = order? w v := by
  have hq : (v.number?.bind fun x => w.number?.map x.order).map Ordering.swap =
      w.number?.bind fun y => v.number?.map y.order := by
    cases v.number? <;> cases w.number? <;> simp [Quantity.order_swap]
  rcases v with (_ | _ | _ | _ | _ | _ | _) | _ <;>
    rcases w with (_ | _ | _ | _ | _ | _ | _) | _ <;>
    first
    | exact hq
    | simp [order?, ← Std.OrientedOrd.eq_swap]

def compares (c : Comparison) (v w : Value) : Bool :=
  match order? v w with
  | some o => c.holds o
  | none => c = .notEqual

def combine : Arithmetic → Value → Value → Option Value
  | .plus, .int m, .int n => some (.int (m + n))
  | .minus, .int m, .int n => some (.int (m - n))
  | .times, .int m, .int n => some (.int (m * n))
  | .divide, .int m, .int n => if n ≠ 0 ∧ n ∣ m then some (.int (m / n)) else none
  | .modulo, .int m, .int n => if n ≠ 0 then some (.int (m.tmod n)) else none
  | _, _, _ => none

/-- Values as they stand. -/
def algebra : Algebra Value where
  ofValue := id
  compares := compares
  combine := combine
  negate v := if v.quantity?.isSome then some v.negate else none
  spell v := some (.text v.plain)
  compares_flip c v w := by
    unfold compares
    rw [← order?_swap w v]
    cases order? w v with
    | none => cases c <;> rfl
    | some o => simp [Comparison.holds_flip, Ordering.swap_swap]
  equal_true b := by cases b <;> rfl
  notEqual_text s t := by simp [compares, order?, Comparison.holds]

end Value

namespace Argument

def text? : Argument → Option String
  | .scalar (.text s) => some s
  | _ => none

mutual
def toValue : Argument → Value
  | .scalar c => .scalar c
  | .list as => .list (toValues as)
  | _ => .null

def toValues : List Argument → List Value
  | [] => []
  | a :: as => toValue a :: toValues as
end

mutual
lemma toValue_ofValue (v : Value) : (ofValue v).toValue = v := by
  cases v with
  | scalar c => rfl
  | list vs => simp [ofValue, toValue, toValues_ofValues vs]

lemma toValues_ofValues (vs : List Value) : toValues (ofValues vs) = vs := by
  cases vs with
  | nil => rfl
  | cons v vs => simp [ofValues, toValues, toValue_ofValue v, toValues_ofValues vs]
end

end Argument

/-- The graph of one vertex without properties. -/
def Graph.point : Graph Unit Value where
  vertices := [()]
  edges := []
  label _ := ""
  source := id
  target := id
  property? _ _ := none
  vertices_nodup := by simp
  edges_nodup := by simp

/-- A graph of two people, of whom the first knows the second. No age is known of the second. -/
def Graph.people : Graph Nat Value where
  vertices := [0, 1]
  edges := [2]
  label e := if e = 2 then "knows" else "person"
  source _ := 0
  target _ := 1
  property? e k :=
    match e, k with
    | 0, "name" => some (.text "Ada")
    | 0, "age" => some (.int 30)
    | 1, "name" => some (.text "Bob")
    | _, _ => none
  vertices_nodup := by decide
  edges_nodup := by decide

namespace Reference

variable {D E : Type} [DecidableEq E] (a : Algebra D) (g : Graph E D)

/-- What some steps do to a traverser. -/
abbrev Move (E D : Type) := Traverser E D → List (Traverser E D)

/-- A step that looks at an element, and emits nothing elsewhere. -/
def atElement (f : E → Move E D) : Move E D := fun t =>
  match t.here with
  | .element e => f e t
  | _ => []

/-- A step that looks at data, and emits nothing elsewhere. -/
def atData (f : D → Move E D) : Move E D := fun t =>
  match t.here with
  | .data d => f d t
  | _ => []

/-- A step that looks at a map, and emits nothing elsewhere. -/
def atEntries (f : List (String × Place E D) → Move E D) : Move E D := fun t =>
  match t.here with
  | .entries m => f m t
  | _ => []

/-- The step with a name and a text. -/
def textMove (name k : String) : Move E D :=
  if name = "out" then atElement fun v t =>
    (g.edges.filter fun e => g.label e = k ∧ g.source e = v).map fun e =>
      t.moved (.element (g.target e))
  else if name = "in" then atElement fun v t =>
    (g.edges.filter fun e => g.label e = k ∧ g.target e = v).map fun e =>
      t.moved (.element (g.source e))
  else if name = "as" then fun t => [t.labelled k]
  else if name = "select" then fun t => ((t.named? k).map t.moved).toList
  else if name = "hasLabel" then atElement fun e t => t.keptIf (g.label e = k)
  else if name = "has" then atElement fun e t => t.keptIf (g.property? e k).isSome
  else if name = "hasNot" then atElement fun e t => t.keptIf (g.property? e k).isNone
  else if name = "values" then atElement fun e t => t.reading (g.property? e k)
  else if name = "math" then
    if k = "-_" then atData fun d t => t.reading (a.negate d)
    else
      match [Arithmetic.plus, .minus, .times, .divide, .modulo].find? fun o =>
        k = "lhs " ++ o.symbol ++ " rhs" with
      | some o => atEntries fun m t =>
        t.reading ((dataAt? m "lhs" "rhs").bind fun (l, r) => a.combine o l r)
      | none => fun _ => []
  else fun _ => []

/-- The step with a name and children. -/
def childMove (name : String) (children : List (Move E D)) : Move E D := fun t =>
  if name = "and" then t.keptIf (children.all fun f => !(f t).isEmpty)
  else if name = "or" then t.keptIf (children.any fun f => !(f t).isEmpty)
  else
    match name, children with
    | "where", [f] => t.keptIf !(f t).isEmpty
    | "not", [f] => t.keptIf (f t).isEmpty
    | "coalesce", [f, g] => if (f t).isEmpty then g t else f t
    | "choose", [f, yes, no] => if (f t).isEmpty then no t else yes t
    | _, _ => []

/-- What a step does, given what its children do. -/
def move (s : Step) (children : List (Move E D)) : Move E D :=
  if s.name = "constant" then
    match s.arguments with
    | [v] => fun t => t.reading (some (a.ofValue v.toValue))
    | _ => fun _ => []
  else
    match s.arguments with
    | [] =>
      if s.name = "V" then fun t => g.vertices.map fun v => t.moved (.element v)
      else if s.name = "E" then fun t => g.edges.map fun e => t.moved (.element e)
      else if s.name = "asString" then atData fun d t => t.reading (a.spell d)
      else childMove s.name children
    | [.scalar (.text k)] => textMove a g s.name k
    | [.side .keys] => fun t => match t.here with
      | .group key => [t.moved key]
      | _ => []
    | [.predicate c v] => atData fun d t => t.keptIf (a.compares c d (a.ofValue v.toValue))
    | [.scalar (.text k), .predicate c v] =>
      if s.name = "where" then
        match v with
        | .scalar (.text r) => atEntries fun m t =>
          t.keptIf ((dataAt? m k r).any fun (d, e) => a.compares c d e)
        | _ => fun _ => []
      else atElement fun e t =>
        t.keptIf ((g.property? e k).any fun d => a.compares c d (a.ofValue v.toValue))
    | _ => childMove s.name children

mutual
/-- What steps do, one after the other. A projection looks ahead for its modulators. -/
def run : List (StepOf Argument) → Move E D
  | [] => fun t => [t]
  | ⟨name, arguments⟩ :: rest =>
    if name = "by" then run rest
    else if name = "project" then fun t =>
      let emitted := (modulators rest).map fun f => f t
      run rest (t.moved (.entries (entered (arguments.filterMap Argument.text?) emitted)))
    else fun t => (move a g ⟨name, arguments⟩ (moves arguments) t).flatMap (run rest)

/-- What an argument does that is a child. -/
def child? : Argument → Option (Move E D)
  | .traversal ⟨_, steps⟩ => some (run steps)
  | _ => none

/-- What the children among the arguments of a step do. -/
def moves : List Argument → List (Move E D)
  | [] => []
  | x :: xs => (child? x).toList ++ moves xs

/-- What the children of the modulators in front do. -/
def modulators : List (StepOf Argument) → List (Move E D)
  | [] => []
  | ⟨name, arguments⟩ :: rest =>
    if name = "by" then moves arguments ++ modulators rest else []
end

lemma moves_children (fs : List Steps) : moves a g (fs.map Argument.child) = fs.map (run a g) := by
  induction fs with
  | nil => rfl
  | cons f fs ih => simp [Argument.child, moves, child?, ih]

/-- Whether a step is no projection and none of its modulators. -/
def isSingle (name : String) : Bool := name ≠ "by" && name ≠ "project"

lemma run_single {name : String} (arguments : List Argument) (h : isSingle name)
    (t : Traverser E D) :
    run a g [Step.of name arguments] t =
      move a g ⟨name, arguments⟩ (moves a g arguments) t := by
  simp only [isSingle, Bool.and_eq_true, decide_eq_true_eq] at h
  simp [run, Step.of, h]

lemma modulators_local {after : Steps} (h : after.all Step.isLocal) :
    modulators a g after = [] := by
  cases after with
  | nil => rfl
  | cons s after =>
    have hs : s.name ≠ "by" := by
      intro hb
      simp [Step.isLocal, hb] at h
    obtain ⟨name, arguments⟩ := s
    simp [modulators, show name ≠ "by" from hs]

lemma modulators_append (before : Steps) {after : Steps} (h : after.all Step.isLocal) :
    modulators a g (before ++ after) = modulators a g before := by
  induction before with
  | nil => simpa [modulators] using modulators_local a g h
  | cons s before ih =>
    obtain ⟨name, arguments⟩ := s
    by_cases hb : name = "by" <;> simp [modulators, hb, ih]

lemma run_append (before after : Steps) (t : Traverser E D) (h : after.all Step.isLocal) :
    run a g (before ++ after) t = (run a g before t).flatMap (run a g after) := by
  induction before generalizing t with
  | nil => simp [run]
  | cons s before ih =>
    obtain ⟨name, arguments⟩ := s
    by_cases hb : name = "by"
    · simp [run, hb, ih]
    · by_cases hp : name = "project"
      · simp [run, hp, ih, modulators_append a g before h]
      · simp only [List.cons_append, run, hb, hp, if_false, List.flatMap_assoc]
        exact List.flatMap_congr fun u _ => ih u

/-- The modulators of a projection do nothing behind it. -/
lemma run_modulators (fs : List Steps) (t : Traverser E D) :
    run a g (fs.map Step.by_) t = [t] ∧ modulators a g (fs.map Step.by_) = fs.map (run a g) := by
  induction fs with
  | nil => exact ⟨rfl, rfl⟩
  | cons f fs ih =>
    refine ⟨by simpa [Step.by_, Step.of, run] using ih.1, ?_⟩
    simpa [Step.by_, Step.of, Argument.child, modulators, moves, child?] using ih.2

lemma run_text {name : String} (k : String) (h : isSingle name ∧ name ≠ "constant")
    (t : Traverser E D) :
    run a g [Step.of name [Argument.text k]] t = textMove a g name k t := by
  rw [run_single a g _ h.1]
  simp [move, Argument.text, h.2]

/-- Whether a step is known by the steps that are its children. -/
def hasChildren (name : String) : Bool :=
  ["where", "not", "and", "or", "choose", "coalesce"].contains name

lemma run_children {name : String} (fs : List Steps) (h : hasChildren name) (t : Traverser E D) :
    run a g [Step.of name (fs.map Argument.child)] t = childMove name (fs.map (run a g)) t := by
  have hname : isSingle name ∧ name ≠ "constant" ∧ name ≠ "V" ∧ name ≠ "E" ∧
      name ≠ "asString" := by
    simp only [hasChildren, List.contains_eq_mem, decide_eq_true_eq, List.mem_cons,
      List.not_mem_nil, or_false] at h
    rcases h with rfl | rfl | rfl | rfl | rfl | rfl <;> decide
  obtain ⟨hsingle, hc⟩ := hname
  rw [run_single a g _ hsingle]
  cases fs with
  | nil => simp [move, moves, hc]
  | cons f fs =>
    have hm := moves_children a g (f :: fs)
    cases fs <;> simp_all [move, Argument.child]

/-- The executor of a graph. -/
def executor : Executor E D where
  toAlgebra := a
  graph := g
  run := run a g
  run_nil t := rfl
  run_append := run_append a g
  run_vertices t := by rw [Step.vertices, run_single a g _ (by decide)]; rfl
  run_edges t := by rw [Step.edges, run_single a g _ (by decide)]; rfl
  run_out l v t h := by
    rw [Step.out, run_text a g _ (by decide)]
    simp [textMove, atElement, h]
  run_in l v t h := by
    rw [Step.in_, run_text a g _ (by decide)]
    simp [textMove, atElement, h]
  run_label l t := run_text a g l (by decide) t
  run_select k t := run_text a g k (by decide) t
  run_selectKeys key t h := by
    rw [Step.selectSide, run_single a g _ (by decide)]
    simp [move, h]
  run_hasLabel l e t h := by
    rw [Step.hasLabel, run_text a g _ (by decide)]
    simp [textMove, atElement, h]
  run_has k e t h := by
    rw [Step.has, run_text a g _ (by decide)]
    simp [textMove, atElement, h]
  run_hasNot k e t h := by
    rw [Step.hasNot, run_text a g _ (by decide)]
    simp [textMove, atElement, h]
  run_hasValue k c v e t h := by
    rw [Step.hasValue, run_single a g _ (by decide)]
    simp [move, atElement, Argument.text, Argument.toValue_ofValue, h]
  run_values k e t h := by
    rw [Step.values, run_text a g _ (by decide)]
    simp [textMove, atElement, h]
  run_constant v t := by
    rw [Step.constant, run_single a g _ (by decide)]
    simp [move, Argument.toValue_ofValue]
  run_satisfies c v d t h := by
    rw [Step.satisfies, run_single a g _ (by decide)]
    simp [move, atData, Argument.toValue_ofValue, h]
  run_asString d t h := by
    rw [Step.asString, run_single a g _ (by decide)]
    simp [move, atData, h]
  run_project names children t h := by
    have hn : (names.map Argument.text).filterMap Argument.text? = names := by
      simp [List.filterMap_map, Function.comp_def, Argument.text, Argument.text?]
    obtain ⟨-, hm⟩ := run_modulators a g children t
    simp [run, Step.project, Step.of, run_modulators, hm, hn, Function.comp_def]
  run_whereEntries l c r m t h := by
    rw [Step.whereEntries, run_single a g _ (by decide)]
    simp [move, atEntries, Argument.text, h]
  run_combine o m t h := by
    rw [Step.math, run_text a g _ (by decide)]
    cases o <;> simp [textMove, atEntries, Arithmetic.symbol, h]
  run_negate d t h := by
    rw [Step.math, run_text a g _ (by decide)]
    simp [textMove, atData, h]
  run_whereEmits f t := run_children a g [f] (by decide) t
  run_not f t := run_children a g [f] (by decide) t
  run_and fs t := by
    rw [Step.and, run_children a g fs (by decide)]
    simp [childMove, Function.comp_def]
  run_or fs t := by
    rw [Step.or, run_children a g fs (by decide)]
    simp [childMove, Function.comp_def]
  run_choose f yes no t :=
    run_children a g [f, yes, no] (by decide) t
  run_coalesce f f' t :=
    run_children a g [f, f'] (by decide) t

end Reference

end GraphSelect
