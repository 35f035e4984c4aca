import GraphSelect.Query.Operator
import GraphSelect.Value

/-!
Traversals of a graph: a source and the steps taken from it. A traversal without a source is a
child of another one and takes its steps from wherever that one stands.
-/

namespace GraphSelect

inductive SortOrder where
  | ascending | descending
  deriving DecidableEq, Inhabited

/-- The sides of an entry of a map. -/
inductive EntrySide where
  | keys | values
  deriving DecidableEq, Inhabited

structure StepOf (α : Type) where
  name : String
  arguments : List α
  deriving DecidableEq, Inhabited

structure TraversalOf (α : Type) where
  source : Option String
  steps : List (StepOf α)
  deriving DecidableEq, Inhabited

inductive Argument where
  | scalar (c : Scalar)
  | list (as : List Argument)
  /-- A comparison with an argument, by which elements are kept. -/
  | predicate (comparison : Comparison) (operand : Argument)
  | order (o : SortOrder)
  | side (s : EntrySide)
  | traversal (t : TraversalOf Argument)
  deriving Inhabited

abbrev Step := StepOf Argument
abbrev Steps := List Step
abbrev Traversal := TraversalOf Argument

namespace Argument

mutual
/-- A value as an argument. -/
def ofValue : Value → Argument
  | .scalar c => .scalar c
  | .list vs => .list (ofValues vs)

def ofValues : List Value → List Argument
  | [] => []
  | v :: vs => ofValue v :: ofValues vs
end

def text (s : String) : Argument := .scalar (.text s)

/-- A child traversal. -/
def child (steps : Steps) : Argument := .traversal ⟨none, steps⟩

end Argument

namespace Traversal

def start (source : Option String) : Traversal := ⟨source, []⟩

/-- Goes on with the steps of a list. -/
def append (t : Traversal) (steps : Steps) : Traversal :=
  { t with steps := t.steps ++ steps }

def stepNames (t : Traversal) : List String :=
  t.steps.map (·.name)

end Traversal

/-! The steps that queries become. -/

namespace Step

open Argument

def of (name : String) (arguments : List Argument) : Step := ⟨name, arguments⟩

def vertices : Step := of "V" []
def edges : Step := of "E" []
def hasLabel (label : String) : Step := of "hasLabel" [text label]
def label (name : String) : Step := of "as" [text name]
def out (edge : String) : Step := of "out" [text edge]
def in_ (edge : String) : Step := of "in" [text edge]
def has (property : String) : Step := of "has" [text property]
def hasNot (property : String) : Step := of "hasNot" [text property]
def hasValue (property : String) (c : Comparison) (v : Value) : Step :=
  of "has" [text property, .predicate c (.ofValue v)]
def satisfies (c : Comparison) (v : Value) : Step := of "is" [.predicate c (.ofValue v)]
def select (names : List String) : Step := of "select" (names.map text)
def selectSide (s : EntrySide) : Step := of "select" [.side s]
def values (property : String) : Step := of "values" [text property]
def constant (v : Value) : Step := of "constant" [.ofValue v]
def whereEmits (child : Steps) : Step := of "where" [.child child]
/-- Keeps a map in which two entries compare. -/
def whereEntries (left : String) (c : Comparison) (right : String) : Step :=
  of "where" [text left, .predicate c (text right)]
def and (children : List Steps) : Step := of "and" (children.map .child)
def or (children : List Steps) : Step := of "or" (children.map .child)
def not (child : Steps) : Step := of "not" [.child child]
def choose (condition yes no : Steps) : Step :=
  of "choose" [.child condition, .child yes, .child no]
def coalesce (first second : Steps) : Step := of "coalesce" [.child first, .child second]
def project (names : List String) : Step := of "project" (names.map text)
def by_ (child : Steps) : Step := of "by" [.child child]
def byOrdered (child : Steps) (o : SortOrder) : Step := of "by" [.child child, .order o]
def math (expression : String) : Step := of "math" [text expression]
def asString : Step := of "asString" []
def group : Step := of "group" []
def fold : Step := of "fold" []
def unfold : Step := of "unfold" []
def order : Step := of "order" []
def dedup : Step := of "dedup" []
def limit (v : Value) : Step := of "limit" [.ofValue v]
def reduce : Aggregate → Step
  | .count => of "count" []
  | .sum => of "sum" []
  | .average => of "mean" []
  | .min => of "min" []
  | .max => of "max" []

end Step

end GraphSelect
