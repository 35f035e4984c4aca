import GraphSelect.Plan.Item
import GraphSelect.Query.Node.Parts

/-!
The grouping of rows.

Rows are grouped by a map of their keys, or all into one group where there are no keys. With
several tables a row is first gathered into one map, since a group holds nothing else of it.
-/

namespace GraphSelect

namespace Select

/-- Whether the rows of a query are grouped. -/
def needsGrouping (q : Select) : Bool :=
  !q.groupBy.isEmpty || q.having.isSome || q.items.any Node.containsAggregate ||
    q.orderBy.any (·.expression.containsAggregate)

end Select

/-- The name of the group key that an expression makes. -/
def keyName (s : Scope) (n : Node) (o : Operand) : Outcome String :=
  match o with
  | .column i => (s.owner i).map fun (b, c) => Scope.groupKey b.name c.property
  | _ => Operand.textOf n

/-- The group keys with the values that make them, each key once. -/
def groupKeysFrom (s : Scope) (keys : List (String × Steps)) :
    List Node → Outcome (List (String × Steps))
  | [] => .ok keys
  | n :: ns => do
    let operand ← Operand.ofNode n
    let name ← keyName s n operand
    if (keys.lookup name).isSome then groupKeysFrom s keys ns
    else do
      let value ← operand.value s
      groupKeysFrom s (keys ++ [(name, value)]) ns

/-- Projects the key of the group that a row belongs to. -/
def keySteps (keys : List (String × Steps)) : Steps :=
  .project (keys.map (·.1)) :: keys.map fun k => .by_ (orMark k.2)

/-- Groups the rows by keys, or all of them into one group. -/
def groupingSteps (s : Scope) (keys : List (String × Steps)) : Steps :=
  (if s.isSingleTable then [] else [Step.select s.labels]) ++
    if keys.isEmpty then [.fold]
    else [.group, .by_ (keySteps keys), .by_ [.fold], .unfold]

def grouped (s : Scope) (groupBy : List Node) : Outcome (Scope × Steps) := do
  let keys ← groupKeysFrom s [] groupBy
  return (s.startGrouping (keys.map (·.1)), groupingSteps s keys)

end GraphSelect
