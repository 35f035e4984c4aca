import GraphSelect.Workbench

/-!
Planning in place.

Here an expression is taken apart while its steps are appended to the traversal one after the other,
and the scope is that of the rows of a group while the argument of an aggregate is planned. What has
been appended is not taken back when something fails behind it. So an operator makes its steps on a
traversal of its own, and they are appended to the other one only when all of them are there.
-/

namespace GraphSelect

/-- Work on a workbench. What has been done before a failure stays done. -/
abbrev Procedure := EStateM Failure Workbench

namespace Procedure

def ofOutcome {α : Type} : Outcome α → Procedure α
  | .ok a => pure a
  | .error e => throw e

def fault (f : Fault) : Procedure Unit := throw (.fault f)

/-- What is known at the moment. -/
def scope : Procedure Scope := do
  return (← get).scope

/-- Appends steps to the traversal. -/
def take (steps : Steps) : Procedure Unit :=
  modify fun w => { w with traversal := w.traversal.append steps }

/-- Does some work on a new traversal and gives the steps of that. -/
def apart (p : Procedure Unit) : Procedure Steps := fun w =>
  match p { w with traversal := .start none } with
  | .ok _ next => .ok next.traversal.steps { next with traversal := w.traversal }
  | .error e next => .error e { next with traversal := w.traversal }

/-- Does some work for the rows of a group, and leaves them at the end even if it fails. -/
def amongRows (p : Procedure Unit) : Procedure Unit := fun w =>
  match p (w.setAggregate true) with
  | .ok _ next => .ok () (next.setAggregate false)
  | .error e next => .error e (next.setAggregate false)

/-! ### Columns and uses of operands -/

def column (i : Identifier) : Procedure Unit := do
  let s ← scope
  let (b, c) ← ofOutcome (s.owner i)
  if s.isRowContext then take (s.propertySteps b.name c.property)
  else
    let key := Scope.groupKey b.name c.property
    if s.isGroupKey key then take (Scope.groupKeySteps key) else fault (.columnNotGrouped i.text)

/-- Filters rows by the element that a column belongs to. -/
def columnFilter (i : Identifier) (filter : String → Step) : Procedure Unit := do
  let s ← scope
  let (b, c) ← ofOutcome (s.owner i)
  take (s.elementFilter b.name [filter c.property])

section

variable (own : Procedure Unit)

/-- Appends the value of an operand, given how its own steps are appended. -/
def valueFrom : Operand → Procedure Unit
  | .apply c text _ _ => do
    let s ← scope
    if s.isGroupKey text then take (Scope.groupKeySteps text)
    else if c.operator.isPredicate then
      let condition ← apart own
      take (truthOf condition)
    else own
  | _ => own

def filterFrom (o : Operand) : Procedure Unit :=
  match o with
  | .apply c _ _ _ =>
    if c.operator.isPredicate then own
    else do
      let value ← apart (valueFrom own o)
      take (holds value)
  | _ => do
    let value ← apart own
    take (holds value)

/-- Appends a test of an operand's value: of the property itself, where it is a column of a row. -/
def testFrom (onColumn : String → Step) (onValue : Steps → Step) (o : Operand) :
    Procedure Unit := do
  let s ← scope
  match o, s.isRowContext with
  | .column i, true => columnFilter i onColumn
  | _, _ =>
    let value ← apart (valueFrom own o)
    take [onValue value]

def presenceFrom (o : Operand) : Procedure Unit :=
  testFrom own .has .whereEmits o

def absenceFrom (o : Operand) : Procedure Unit :=
  testFrom own .hasNot .not o

/-! ### Operators -/

def compareConstant (c : Comparison) (o : Operand) (l : Literal) : Procedure Unit :=
  let onValue (value : Steps) := Step.whereEmits (value ++ [.satisfies c l.native])
  match l.native with
  | .null => do
    let value ← apart (valueFrom own o)
    take [onValue value]
  | native => testFrom own (fun property => .hasValue property c native) onValue o

def compare (own' : Procedure Unit) (c : Comparison) (left right : Operand) : Procedure Unit :=
  match left, right with
  | _, .constant l => compareConstant own c left l
  | .constant l, _ => compareConstant own' c.flip right l
  | _, _ => do
    let l ← apart (valueFrom own left)
    let r ← apart (valueFrom own' right)
    take [.whereEmits (pair l r ++ [.whereEntries "lhs" c "rhs"])]

/-- Appends the two values one after the other, behind the names they get. -/
def arithmetic (own' : Procedure Unit) (a : Arithmetic) (left right : Operand) :
    Procedure Unit := do
  take [.project ["lhs", "rhs"]]
  let l ← apart (valueFrom own left)
  take [.by_ l]
  let r ← apart (valueFrom own' right)
  take [.by_ r]
  take [.math ("lhs " ++ a.symbol ++ " rhs")]

def cast (operand target : Operand) : Procedure Unit :=
  match target with
  | .target t => do
    let s ← scope
    let type ← ofOutcome (operand.type s)
    if t.type = .varchar then
      valueFrom own operand
      if type = .varchar then pure () else take [.asString]
    else if t.type = type then valueFrom own operand
    else fault (.unknownOperator Operator.cast.name)
  | _ => fault (.unsupportedOperandType target.kindName)

/-- Appends what an aggregate reduces, at the rows of the group. -/
def argument (a : Aggregate) (distinct : Bool) (operand : Operand) : Procedure Unit :=
  let star := match operand with
    | .column i => i.isStar
    | _ => false
  if star then if a = .count then pure () else fault (.unsupportedOperandType "*")
  else do
    amongRows (valueFrom own operand)
    if distinct then take [.dedup] else pure ()

/-- Goes to the rows of the group before it looks at the operand. -/
def aggregate (a : Aggregate) (distinct : Bool) (operand : Operand) : Procedure Unit := do
  let s ← scope
  take s.groupRowSteps
  argument own a distinct operand
  take [.reduce a]

/-- An operator that does not take as many operands. -/
def refuse (op : Operator) (expected received : Nat) : Procedure Unit :=
  if op.family = .unsupported then fault (.unknownOperator op.name)
  else fault (.operandCountMismatch op.name expected received)

/-- Appends the steps of an operator with one operand, given how the operand's own steps and what
has to be present for its negation are appended. -/
def unary (guard : Procedure Unit) (c : Call) (x : Operand) : Procedure Unit :=
  match c.operator with
  | .isNull => absenceFrom own x
  | .isNotNull => presenceFrom own x
  | .not => do
    guard
    let child ← apart (filterFrom own x)
    take [.not child]
  | .negate => do
    valueFrom own x
    take [.math "-_"]
  | .aggregate a => do
    let s ← scope
    if !s.isGrouped || s.inAggregate then fault (.unknownOperator a.name)
    else aggregate own a c.distinct x
  | op => refuse op 2 1

def binary (own' : Procedure Unit) (c : Call) (left right : Operand) : Procedure Unit :=
  match c.operator with
  | .comparison comparison => compare own own' comparison left right
  | .and => do
    let l ← apart (filterFrom own left)
    let r ← apart (filterFrom own' right)
    take [.and [l, r]]
  | .or => do
    let l ← apart (filterFrom own left)
    let r ← apart (filterFrom own' right)
    take [.or [l, r]]
  | .arithmetic a => arithmetic own own' a left right
  | .cast => cast own left right
  | op => refuse op 1 2

end

mutual
/-- Appends the steps of an operand in itself. -/
def own : Operand → Procedure Unit
  | .column i => column i
  | .constant l => take [.constant l.native]
  | .apply c _ _ operands => operation c operands
  | o => fault (.unsupportedOperandType o.kindName)

/-- Appends the steps of an operator when all of them have been made. -/
def operation (c : Call) : List Operand → Procedure Unit
  | [] => fault .operandsEmpty
  | [x] => do
    let steps ← apart (unary (own x) (guard x) c x)
    take steps
  | [left, right] => do
    let steps ← apart (binary (own left) (own right) c left right)
    take steps
  | _ :: _ :: _ :: _ => fault .operandsMoreThanTwo

def guard : Operand → Procedure Unit
  | .column i => presenceFrom (column i) (.column i)
  | .apply c _ _ operands =>
    match c.operator with
    | .comparison _ => presences operands
    | _ => pure ()
  | _ => pure ()

def presences : List Operand → Procedure Unit
  | [] => pure ()
  | x :: xs => do
    if x.isConstant then pure () else presenceFrom (own x) x
    presences xs
end

def value (o : Operand) : Procedure Unit := valueFrom (own o) o

def filter (o : Operand) : Procedure Unit := filterFrom (own o) o

def presence (o : Operand) : Procedure Unit := presenceFrom (own o) o

/-! ### Expressions -/

/-- Appends the steps of the operator of a call. Its operands are taken apart before. -/
def addOperator (n : Node) : Procedure Unit :=
  match n with
  | .call c nodes => do
    let operands ← ofOutcome (Operand.ofCall c nodes)
    operation c operands
  | n => fault (.unsupportedOperandType n.kindName)

def addValue (n : Node) : Procedure Unit := do
  let o ← ofOutcome (Operand.ofNode n)
  value o

def addFilter (n : Node) : Procedure Unit := do
  let o ← ofOutcome (Operand.ofNode n)
  filter o

def addPresence (n : Node) : Procedure Unit := do
  let o ← ofOutcome (Operand.ofNode n)
  presence o

/-- Does some work, and tells why it has failed if it has. -/
def perform (p : Procedure Unit) (w : Workbench) : Workbench × Option Failure :=
  match p w with
  | .ok _ next => (next, none)
  | .error e next => (next, some e)

end Procedure

end GraphSelect
