import GraphSelect.Operand

/-!
The steps that expressions become.

An operand is used as a value, which is nothing for `NULL`; as a filter, which keeps what it is
true of; or for its presence, a filter which keeps what it has a value for. A comparison of a
column with a constant becomes a test of the property itself, where rows are seen one by one.
Grouping turns a call whose text is that of a group key into that key.
-/

namespace GraphSelect

/-- Gives true where the steps emit and false where they do not. -/
def truthOf (steps : Steps) : Steps :=
  [.choose steps [.constant (.bool true)] [.constant (.bool false)]]

/-- Keeps what the value is true of. -/
def holds (value : Steps) : Steps :=
  [.whereEmits (value ++ [.satisfies .equal (.bool true)])]

/-- Two values as the entries `lhs` and `rhs` of a map. -/
def pair (left right : Steps) : Steps :=
  [.project ["lhs", "rhs"], .by_ left, .by_ right]

namespace Operand

variable (s : Scope)

/-- An operand as a value, given the steps of its own. -/
def valueFrom (own : Outcome Steps) : Operand → Outcome Steps
  | .apply c text _ _ =>
    if s.isGroupKey text then .ok (Scope.groupKeySteps text)
    else if c.operator.isPredicate then own.map truthOf
    else own
  | _ => own

/-- An operand as a filter. -/
def filterFrom (own : Outcome Steps) (o : Operand) : Outcome Steps :=
  match o with
  | .apply c _ _ _ => if c.operator.isPredicate then own else (o.valueFrom s own).map holds
  | _ => own.map holds

/-- A filter on the element that a column belongs to. -/
def columnFilter (i : Identifier) (filter : String → Step) : Outcome Steps :=
  (s.owner i).map fun (b, c) => s.elementFilter b.name [filter c.property]

/-- An operand as a filter that keeps what it has a value for. -/
def presenceFrom (own : Outcome Steps) (o : Operand) : Outcome Steps :=
  match o with
  | .column i =>
    if s.isRowContext then columnFilter s i .has else own.map fun v => [.whereEmits v]
  | _ => (o.valueFrom s own).map fun v => [.whereEmits v]

/-- An operand as a filter that keeps what it has no value for. -/
def absenceFrom (own : Outcome Steps) (o : Operand) : Outcome Steps :=
  match o with
  | .column i =>
    if s.isRowContext then columnFilter s i .hasNot else own.map fun v => [.not v]
  | _ => (o.valueFrom s own).map fun v => [.not v]

/-- A comparison with a constant. -/
def compareConstant (c : Comparison) (own : Outcome Steps) (o : Operand) (l : Literal) :
    Outcome Steps :=
  match o, l.native with
  | _, .null => (o.valueFrom s own).map fun v => [.whereEmits (v ++ [.satisfies c .null])]
  | .column i, value =>
    if s.isRowContext then columnFilter s i fun property => .hasValue property c value
    else own.map fun v => [.whereEmits (v ++ [.satisfies c value])]
  | _, value => (o.valueFrom s own).map fun v => [.whereEmits (v ++ [.satisfies c value])]

/-- A comparison. A constant on the left changes sides. -/
def compare (c : Comparison) (left right : Operand) (ownLeft ownRight : Outcome Steps) :
    Outcome Steps :=
  match left, right with
  | _, .constant l => compareConstant s c ownLeft left l
  | .constant l, _ => compareConstant s c.flip ownRight right l
  | _, _ => do
    let l ← left.valueFrom s ownLeft
    let r ← right.valueFrom s ownRight
    return [.whereEmits (pair l r ++ [.whereEntries "lhs" c "rhs"])]

/-- A cast, which only turns values into texts or leaves them as they are. -/
def cast (operand target : Operand) (own : Outcome Steps) : Outcome Steps :=
  match target with
  | .target t => do
    let type ← operand.type s
    if t.type = .varchar then
      let v ← operand.valueFrom s own
      return v ++ if type = .varchar then [] else [.asString]
    else if t.type = type then operand.valueFrom s own
    else .fault (.unknownOperator Operator.cast.name)
  | _ => .fault (.unsupportedOperandType target.kindName)

/-- An aggregate over the rows of a group. A star only counts rows. -/
def aggregate (a : Aggregate) (distinct : Bool) (operand : Operand) (own : Outcome Steps) :
    Outcome Steps :=
  let star := match operand with
    | .column i => i.isStar
    | _ => false
  if star then
    if a = .count then .ok (s.groupRowSteps ++ [.reduce a])
    else .fault (.unsupportedOperandType "*")
  else
    (operand.valueFrom s.aggregated own).map fun v =>
      s.groupRowSteps ++ v ++ (if distinct then [.dedup] else []) ++ [.reduce a]

def mismatch (op : Operator) (expected received : Nat) : Outcome Steps :=
  .fault (.operandCountMismatch op.name expected received)

mutual
/-- The steps of an operand in itself, with no regard to group keys or to its use. -/
def own (s : Scope) : Operand → Outcome Steps
  | .column i => s.columnSteps i
  | .constant l => .ok [.constant l.native]
  | .apply c _ _ operands => operation s c operands
  | o => .fault (.unsupportedOperandType o.kindName)

/-- The steps of an operator. The number of its operands is checked first. -/
def operation (s : Scope) (c : Call) : List Operand → Outcome Steps
  | [] => .fault .operandsEmpty
  | [x] =>
    match c.operator with
    | .isNull => x.absenceFrom s (own s x)
    | .isNotNull => x.presenceFrom s (own s x)
    | .not => do
      let guards ← guard s x
      let child ← x.filterFrom s (own s x)
      return guards ++ [.not child]
    | .negate => (x.valueFrom s (own s x)).map (· ++ [.math "-_"])
    | .aggregate a =>
      if !s.isGrouped || s.inAggregate then .fault (.unknownOperator a.name)
      else aggregate s a c.distinct x (own s.aggregated x)
    | op => if op.family = .unsupported then .fault (.unknownOperator op.name) else mismatch op 2 1
  | [left, right] =>
    match c.operator with
    | .comparison comparison => compare s comparison left right (own s left) (own s right)
    | .and => do
      return [.and [← left.filterFrom s (own s left), ← right.filterFrom s (own s right)]]
    | .or => do
      return [.or [← left.filterFrom s (own s left), ← right.filterFrom s (own s right)]]
    | .arithmetic a => do
      let l ← left.valueFrom s (own s left)
      let r ← right.valueFrom s (own s right)
      return pair l r ++ [.math ("lhs " ++ a.symbol ++ " rhs")]
    | .cast => cast s left right (own s left)
    | op => if op.family = .unsupported then .fault (.unknownOperator op.name) else mismatch op 1 2
  | _ :: _ :: _ :: _ => .fault .operandsMoreThanTwo

/-- Keeps the rows for which no operand that could make a negated condition `NULL` is missing: the
column itself, or both sides of a comparison. -/
def guard (s : Scope) : Operand → Outcome Steps
  | .column i => presenceFrom s (s.columnSteps i) (.column i)
  | .apply c _ _ operands =>
    match c.operator with
    | .comparison _ => presences s operands
    | _ => .ok []
  | _ => .ok []

/-- Keeps the rows for which every operand that is not a constant has a value. -/
def presences (s : Scope) : List Operand → Outcome Steps
  | [] => .ok []
  | x :: xs => do
    let first ← if x.isConstant then .ok [] else x.presenceFrom s (own s x)
    return first ++ (← presences s xs)
end

/-- The steps that produce the value of an operand. -/
def value (o : Operand) : Outcome Steps :=
  o.valueFrom s (own s o)

/-- The filter that keeps what an operand is true of. -/
def filter (o : Operand) : Outcome Steps :=
  o.filterFrom s (own s o)

/-- The filter that keeps what an operand has a value for. -/
def presence (o : Operand) : Outcome Steps :=
  o.presenceFrom s (own s o)

end Operand

end GraphSelect
