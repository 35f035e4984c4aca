import GraphSelect.Traversal
import Mathlib.Data.List.Perm.Basic
import Mathlib.Tactic.Common

/-!
What running a traversal means.

The graph and the program that runs traversals on it are outside of this library. An executor is
any such program, together with what it promises about the steps that queries become: a promise is
an equation about one kind of step. Steps that gather or order traversers have none.
-/

namespace GraphSelect

/-- A property graph. A property of an element has one value or is absent. -/
structure Graph (E D : Type) where
  vertices : List E
  edges : List E
  label : E → String
  /-- The vertex that an edge leaves. -/
  source : E → E
  /-- The vertex that an edge enters. -/
  target : E → E
  property? : E → String → Option D
  vertices_nodup : vertices.Nodup
  edges_nodup : edges.Nodup

/-- How the values of properties are compared, computed with, and turned into texts. -/
structure Algebra (D : Type) where
  ofValue : Value → D
  compares : Comparison → D → D → Bool
  combine : Arithmetic → D → D → Option D
  negate : D → Option D
  spell : D → Option D
  compares_flip (c : Comparison) (a b : D) : compares c.flip a b = compares c b a
  equal_true (b : Bool) : compares .equal (ofValue (.bool b)) (ofValue (.bool true)) = b
  notEqual_text (s t : String) :
    compares .notEqual (ofValue (.text s)) (ofValue (.text t)) = decide (s ≠ t)

namespace Algebra

variable {D : Type} (a : Algebra D)

def ofBool (b : Bool) : D := a.ofValue (.bool b)

/-- Whether data count as true in a condition. -/
def isTrue (d : D) : Bool := a.compares .equal d (a.ofBool true)

@[simp] lemma isTrue_ofBool (b : Bool) : a.isTrue (a.ofBool b) = b := a.equal_true b

end Algebra

/-- Where a traverser stands. -/
inductive Place (E D : Type) where
  | start
  | element (e : E)
  | data (d : D)
  /-- A map, such as a projection or the key of a group. -/
  | entries (m : List (String × Place E D))
  | group (key : Place E D)

def Place.element? {E D : Type} : Place E D → Option E
  | .element e => some e
  | _ => none

structure Traverser (E D : Type) where
  here : Place E D
  /-- The places that were labelled on the way, the last first. -/
  labels : List (String × Place E D)

namespace Traverser

variable {E D : Type}

def start : Traverser E D := ⟨.start, []⟩

def moved (t : Traverser E D) (p : Place E D) : Traverser E D := { t with here := p }

def labelled (t : Traverser E D) (name : String) : Traverser E D :=
  { t with labels := (name, t.here) :: t.labels }

/-- The place that a name denotes: an entry of the map at hand, or else a labelled place. -/
def named? (t : Traverser E D) (name : String) : Option (Place E D) :=
  match t.here with
  | .entries m => (m.lookup name).or (t.labels.lookup name)
  | _ => t.labels.lookup name

/-- What a filter emits. -/
def keptIf (t : Traverser E D) (b : Bool) : List (Traverser E D) := if b then [t] else []

/-- What the reading of a value emits. -/
def reading (t : Traverser E D) (d : Option D) : List (Traverser E D) :=
  (d.map fun d => t.moved (.data d)).toList

@[simp] lemma here_moved (t : Traverser E D) (p : Place E D) : (t.moved p).here = p := rfl
@[simp] lemma moved_moved (t : Traverser E D) (p q : Place E D) :
    (t.moved p).moved q = t.moved q := rfl
@[simp] lemma keptIf_true (t : Traverser E D) : t.keptIf true = [t] := rfl
@[simp] lemma keptIf_false (t : Traverser E D) : t.keptIf false = [] := rfl
@[simp] lemma reading_none (t : Traverser E D) : t.reading none = [] := rfl
@[simp] lemma reading_some (t : Traverser E D) (d : D) :
    t.reading (some d) = [t.moved (.data d)] := rfl

@[simp] lemma isEmpty_keptIf (t : Traverser E D) (b : Bool) : (t.keptIf b).isEmpty = !b := by
  cases b <;> rfl

@[simp] lemma isEmpty_reading (t : Traverser E D) (d : Option D) :
    (t.reading d).isEmpty = d.isNone := by
  cases d <;> rfl

lemma keptIf_injective {t : Traverser E D} {b b' : Bool} (h : t.keptIf b = t.keptIf b') :
    b = b' := by
  simpa using congrArg List.isEmpty h

lemma reading_injective {t : Traverser E D} {d d' : Option D} (h : t.reading d = t.reading d') :
    d = d' := by
  cases d <;> cases d' <;> simp_all [moved]

lemma flatMap_keptIf (t : Traverser E D) (b : Bool) (f : Traverser E D → List (Traverser E D)) :
    (t.keptIf b).flatMap f = if b then f t else [] := by
  cases b <;> simp

lemma flatMap_reading (t : Traverser E D) (d : Option D)
    (f : Traverser E D → List (Traverser E D)) :
    (t.reading d).flatMap f = (d.map fun d => f (t.moved (.data d))).getD [] := by
  cases d <;> simp

end Traverser

/-- The steps that treat every traverser by itself and need no step behind them. -/
def Step.isLocal (s : Step) : Bool :=
  ["has", "hasLabel", "hasNot", "is", "where", "and", "or", "not", "as", "out", "in", "select",
    "values", "constant", "coalesce", "choose", "math", "asString"].contains s.name

/-- What a map of the first places that the children reach holds. Nothing is entered for a child
that emits nothing. -/
def entered {E D : Type} (names : List String) (emitted : List (List (Traverser E D))) :
    List (String × Place E D) :=
  (names.zip emitted).filterMap fun (name, ts) => ts.head?.map fun t => (name, t.here)

/-- The data under two names of a map, if there are any under both. -/
def dataAt? {E D : Type} (m : List (String × Place E D)) (left right : String) : Option (D × D) :=
  match m.lookup left, m.lookup right with
  | some (.data a), some (.data b) => some (a, b)
  | _, _ => none

/-- A program that runs traversals on a graph. -/
structure Executor (E D : Type) [DecidableEq E] extends Algebra D where
  graph : Graph E D
  run : Steps → Traverser E D → List (Traverser E D)
  run_nil (t) : run [] t = [t]
  run_append (before after t) (h : after.all Step.isLocal) :
    run (before ++ after) t = (run before t).flatMap (run after)
  -- Graph steps emit in any order.
  run_vertices (t) : (run [.vertices] t).Perm (graph.vertices.map fun v => t.moved (.element v))
  run_edges (t) : (run [.edges] t).Perm (graph.edges.map fun e => t.moved (.element e))
  run_out (l v t) (h : t.here = .element v) :
    (run [.out l] t).Perm
      ((graph.edges.filter fun e => graph.label e = l ∧ graph.source e = v).map fun e =>
        t.moved (.element (graph.target e)))
  run_in (l v t) (h : t.here = .element v) :
    (run [.in_ l] t).Perm
      ((graph.edges.filter fun e => graph.label e = l ∧ graph.target e = v).map fun e =>
        t.moved (.element (graph.source e)))
  run_label (l t) : run [.label l] t = [t.labelled l]
  run_select (k t) : run [.select [k]] t = ((t.named? k).map t.moved).toList
  run_selectKeys (key t) (h : t.here = .group key) : run [.selectSide .keys] t = [t.moved key]
  -- Tests of an element.
  run_hasLabel (l e t) (h : t.here = .element e) :
    run [.hasLabel l] t = t.keptIf (graph.label e = l)
  run_has (k e t) (h : t.here = .element e) :
    run [.has k] t = t.keptIf (graph.property? e k).isSome
  run_hasNot (k e t) (h : t.here = .element e) :
    run [.hasNot k] t = t.keptIf (graph.property? e k).isNone
  run_hasValue (k c v e t) (h : t.here = .element e) :
    run [.hasValue k c v] t =
      t.keptIf ((graph.property? e k).any fun d => compares c d (ofValue v))
  -- Values.
  run_values (k e t) (h : t.here = .element e) : run [.values k] t = t.reading (graph.property? e k)
  run_constant (v t) : run [.constant v] t = t.reading (some (ofValue v))
  run_satisfies (c v d t) (h : t.here = .data d) :
    run [.satisfies c v] t = t.keptIf (compares c d (ofValue v))
  run_asString (d t) (h : t.here = .data d) : run [.asString] t = t.reading (spell d)
  run_project (names : List String) (children : List Steps) (t)
    (h : names.length = children.length) :
    run (.project names :: children.map .by_) t =
      [t.moved (.entries (entered names (children.map (run · t))))]
  run_whereEntries (l c r m t) (h : t.here = .entries m) :
    run [.whereEntries l c r] t = t.keptIf ((dataAt? m l r).any fun (a, b) => compares c a b)
  run_combine (a : Arithmetic) (m t) (h : t.here = .entries m) :
    run [.math ("lhs " ++ a.symbol ++ " rhs")] t =
      t.reading ((dataAt? m "lhs" "rhs").bind fun (l, r) => combine a l r)
  run_negate (d t) (h : t.here = .data d) : run [.math "-_"] t = t.reading (negate d)
  -- Steps that depend on whether their children emit.
  run_whereEmits (f t) : run [.whereEmits f] t = t.keptIf !(run f t).isEmpty
  run_not (f t) : run [.not f] t = t.keptIf (run f t).isEmpty
  run_and (fs t) : run [.and fs] t = t.keptIf (fs.all fun f => !(run f t).isEmpty)
  run_or (fs t) : run [.or fs] t = t.keptIf (fs.any fun f => !(run f t).isEmpty)
  run_choose (f yes no t) :
    run [.choose f yes no] t = if (run f t).isEmpty then run no t else run yes t
  run_coalesce (f g t) :
    run [.coalesce f g] t = if (run f t).isEmpty then run g t else run f t

end GraphSelect
