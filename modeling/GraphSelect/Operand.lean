import GraphSelect.Query.Node.Printer
import GraphSelect.Scope

/-!
Expressions on their way into a traversal: the calls of operators that have steps, over columns,
constants and the types of casts. The operands of any other operator stay as they are.
-/

namespace GraphSelect

/-- The operators that become steps in the same way. -/
inductive Family where
  | comparison | nullCheck | boolean | arithmetic | cast | aggregate | unsupported
  deriving DecidableEq, Inhabited

namespace Operator

def family : Operator → Family
  | .comparison _ => .comparison
  | .isNull | .isNotNull => .nullCheck
  | .and | .or | .not => .boolean
  | .arithmetic _ | .negate => .arithmetic
  | .cast => .cast
  | .aggregate _ => .aggregate
  | .rename | .scalarQuery | .like | .within | .function _ => .unsupported

/-- Whether an operator becomes a filter. All others produce a value. -/
def isPredicate (op : Operator) : Bool :=
  match op.family with
  | .comparison | .nullCheck | .boolean => true
  | _ => false

end Operator

inductive Operand where
  | column (i : Identifier)
  | constant (l : Literal)
  /-- The type of a cast. -/
  | target (t : TypeSpec)
  /-- An operand of an operator without steps. -/
  | raw (n : Node)
  /-- A call, with its text in the query and its name as a result column. -/
  | apply (c : Call) (text label : String) (operands : List Operand)
  deriving Inhabited

namespace Operand

/-- The text of a node, which it lacks if some call in it lacks an operand. -/
def textOf (n : Node) : Outcome String :=
  match n.sql? with
  | some t => .ok t
  | none => .error .missingOperand

mutual
/-- An expression as an operand. Tables, lists and selects are none. -/
def ofNode : Node → Outcome Operand
  | .identifier i => .ok (.column i)
  | .literal l => .ok (.constant l)
  | .typeSpec t => .ok (.target t)
  | .call c nodes => do
    let operands ←
      if c.operator.family = .unsupported then .ok (nodes.map .raw) else ofNodes nodes
    let text ← textOf (.call c nodes)
    return .apply c text text operands
  | n => .fault (.unsupportedOperandType n.kindName)

def ofNodes : List Node → Outcome (List Operand)
  | [] => .ok []
  | n :: ns => do return (← ofNode n) :: (← ofNodes ns)
end

/-- The operands of a call. -/
def ofCall (c : Call) (nodes : List Node) : Outcome (List Operand) :=
  if c.operator.family = .unsupported then .ok (nodes.map .raw) else ofNodes nodes

/-- The word for a kind of operand in messages. -/
def kindName : Operand → String
  | .column _ => "GremlinSqlIdentifier"
  | .constant _ => "GremlinSqlLiteral"
  | .target _ => "GremlinSqlDataType"
  | .raw n => n.kindName
  | .apply _ _ _ _ => "GremlinSqlBasicCall"

/-- The name of an operand as a result column. -/
def name : Operand → Outcome String
  | .column i => .ok i.simple
  | .constant l => .ok l.native.sql
  | .apply _ _ label _ => .ok label
  | o => .fault (.unsupportedOperandType o.kindName)

/-- Gives a call another name as a result column. -/
def rename (label : String) : Operand → Operand
  | .apply c text _ operands => .apply c text label operands
  | o => o

/-- The type of an operand. A column that carries none has that of the catalog. -/
def type (s : Scope) : Operand → Outcome TypeName
  | .column i =>
    match i.type with
    | some t => .ok t
    | none => s.typeOf i
  | .constant l => .ok l.type
  | .target t => .ok t.type
  | .raw n => .ok n.type
  | .apply c _ _ _ => .ok (c.type.getD .any)

def isConstant : Operand → Bool
  | .constant _ => true
  | _ => false

end Operand

end GraphSelect
