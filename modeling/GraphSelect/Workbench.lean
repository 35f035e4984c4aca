import GraphSelect.Plan

/-!
Planning by hand: a scope and a traversal that single expressions and tables are added to.

An addition that fails leaves the workbench as it was.
-/

namespace GraphSelect

structure Workbench where
  scope : Scope
  traversal : Traversal
  columns : List ResultColumn
  deriving Inhabited

namespace Workbench

def ofTraversal (c : Catalog) (t : Traversal) : Workbench :=
  ⟨.initial c, t, []⟩

/-- Goes on with steps, unless they could not be made. -/
def extend (w : Workbench) (steps : Outcome Steps) : Outcome Workbench :=
  steps.map fun s => { w with traversal := w.traversal.append s }

/-- Binds a table of the catalog to a name. The traversal stays as it is. -/
def addTable (w : Workbench) (name table : String) : Outcome Workbench := do
  let t ← w.scope.catalog.table table
  return { w with scope := ← w.scope.bind name t }

/-- Adds the steps of the operator of a call. -/
def addOperator (w : Workbench) (n : Node) : Outcome Workbench :=
  match n with
  | .call c nodes => do
    let operands ← Operand.ofCall c nodes
    w.extend (Operand.operation w.scope c operands)
  | n => .fault (.unsupportedOperandType n.kindName)

/-- Adds the steps that produce the value of an expression. -/
def addValue (w : Workbench) (n : Node) : Outcome Workbench := do
  let o ← Operand.ofNode n
  w.extend (o.value w.scope)

/-- Adds the filter that keeps what an expression is true of. -/
def addFilter (w : Workbench) (n : Node) : Outcome Workbench := do
  let o ← Operand.ofNode n
  w.extend (o.filter w.scope)

/-- Adds the filter that keeps what an expression has a value for. -/
def addPresence (w : Workbench) (n : Node) : Outcome Workbench := do
  let o ← Operand.ofNode n
  w.extend (o.presence w.scope)

def addColumn (w : Workbench) (i : Identifier) : Outcome Workbench :=
  w.extend (w.scope.columnSteps i)

def addProperty (w : Workbench) (label property : String) : Outcome Workbench :=
  w.extend (.ok (w.scope.propertySteps label property))

def addElementFilter (w : Workbench) (label : String) (filter : Steps) : Outcome Workbench :=
  w.extend (.ok (w.scope.elementFilter label filter))

def addGroupKey (w : Workbench) (name : String) : Outcome Workbench :=
  w.extend (.ok (Scope.groupKeySteps name))

def addGroupRows (w : Workbench) : Outcome Workbench :=
  w.extend (.ok w.scope.groupRowSteps)

def startGrouping (w : Workbench) (keys : List String) : Workbench :=
  { w with scope := w.scope.startGrouping keys }

/-- Enters or leaves the rows of a group. Leaving ends every scope entered before. -/
def setAggregate (w : Workbench) (inside : Bool) : Workbench :=
  { w with scope := { w.scope with inAggregate := inside } }

def addResult (w : Workbench) (name : String) (type : TypeName) : Workbench :=
  { w with columns := w.columns ++ [⟨name, type⟩] }

/-- Tries an addition. If it fails, all stays as it was. -/
def attempt (w : Workbench) (addition : Outcome Workbench) : Workbench × Option Failure :=
  match addition with
  | .ok next => (next, none)
  | .error f => (w, some f)

end Workbench

end GraphSelect
