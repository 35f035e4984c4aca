import GraphSelect.Operand.Steps

/-!
The steps of a `FROM` clause.

The first table is where the traversal starts. A join walks along an edge of the graph from a
table joined before to the new one, and only inner joins of vertices do. The place of every table
is labelled with the name it is bound to.
-/

namespace GraphSelect

def tableSteps (s : Scope) (t : TableRef) : Outcome (Scope × Steps) := do
  let table ← s.catalog.table t.name
  let s ← s.bind t.binding table
  let start := if table.isVertex then Step.vertices else Step.edges
  return (s, [start, .hasLabel table.label, .label t.binding])

/-- The columns that a join equates: that of a table joined before, and that of the new one. -/
def joinColumns (condition : Option Node) (name : String) : Outcome (Identifier × Identifier) :=
  match condition with
  | some (.call ⟨.comparison .equal, _, _⟩ [.identifier left, .identifier right]) =>
    match left.names, right.names with
    | [a, _], [b, _] =>
      if b = name ∧ a ≠ name then .ok (left, right)
      else if a = name ∧ b ≠ name then .ok (right, left)
      else
        .fault (.joinNotSupported ("the ON clause must relate '" ++ name ++ "' to a joined table"))
    | _, _ => .fault (.joinNotSupported "the ON clause must equate two qualified columns")
  | _ => .fault (.joinNotSupported "the ON clause must equate two qualified columns")

/-- Walks from a table joined before to the new one. The traversal stands at the last table, and
goes back to the other one first if that is where the edge begins. -/
def joinSteps (s : Scope) (t : TableRef) (condition : Option Node) : Outcome (Scope × Steps) := do
  let table ← s.catalog.table t.name
  let (old, new) ← joinColumns condition t.binding
  let b ← s.binding (old.names.headD "")
  if !b.table.isVertex || !table.isVertex then
    .fault (.joinNotSupported "only vertex tables can be joined")
  let walk ← s.catalog.walk b.table.name table.name (some old.simple) (some new.simple)
  let back := if s.currentLabel? = some b.name then [] else [Step.select [b.name]]
  let s ← s.bind t.binding table
  let along := match walk.direction with
    | .out => Step.out walk.edge.label
    | .in => Step.in_ walk.edge.label
  return (s, back ++ [along, .hasLabel table.label, .label t.binding])

def sourceSteps (s : Scope) : Node → Outcome (Scope × Steps)
  | .table t => tableSteps s t
  | .join left .inner (.table t) condition => do
    let (s, before) ← sourceSteps s left
    let (s, steps) ← joinSteps s t condition
    return (s, before ++ steps)
  | .join _ .inner _ _ => .fault (.joinNotSupported "the joined item must be a table")
  | .join _ kind _ _ => .fault (.joinNotSupported (kind.name ++ " join"))
  | n => .fault (.unsupportedOperandType n.kindName)

end GraphSelect
