import GraphSelect.Query.Operator
import GraphSelect.Query.TypeName

/-!
The type of the result of an operator, from the types of its operands.
-/

namespace GraphSelect.Operator

def resultType (op : Operator) (operands : List TypeName) : TypeName :=
  match op with
  | .comparison _ | .and | .or | .not | .isNull | .isNotNull | .like | .within => .boolean
  | .cast => operands[1]?.getD .any
  | .aggregate .count => .bigint
  | .aggregate .average => .double
  | .aggregate _ | .negate => operands.head?.getD .any
  | .arithmetic _ => .widest operands
  | .rename | .scalarQuery | .function _ => .any

end GraphSelect.Operator
