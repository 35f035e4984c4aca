import GraphSelect.Plan.Grouping
import GraphSelect.Plan.Ordering
import GraphSelect.Plan.Source

/-!
The traversal of a query.

The steps follow the clauses: tables and joins, `WHERE`, grouping, `HAVING`, `ORDER BY`, `LIMIT`,
and last the projection of the select items. With `DISTINCT` the projection comes before the limit,
since it is the projected rows that are distinct.
-/

namespace GraphSelect

structure ResultColumn where
  name : String
  type : TypeName
  deriving DecidableEq, Inhabited

/-- How a query is answered: the traversal to run, and the columns of its result. -/
structure Plan where
  traversal : Traversal
  columns : List ResultColumn
  deriving Inhabited

/-- The plan of a query, for a traversal from a source and at most so many rows. -/
def plan (c : Catalog) (source : Option String) (maxRows : Option Int) (q : Select) :
    Outcome Plan := do
  if q.offset.isSome then .fault .offsetNotSupported
  let some tables := q.source | .fault .unsupportedLiteralExpression
  let (s, fromSteps) ← Outcome.inClause "FROM" (sourceSteps (.initial c) tables)
  let whereSteps ← match q.filter with
    | none => .ok []
    | some n => Outcome.inClause "WHERE" ((Operand.ofNode n).bind (·.filter s))
  let items ← Outcome.inClause "SELECT" (itemsFrom s [] q.items)
  let (s, groupSteps) ←
    if q.needsGrouping then Outcome.inClause "GROUP BY" (grouped s q.groupBy) else .ok (s, [])
  let havingSteps ← match q.having with
    | none => .ok []
    | some n => Outcome.inClause "HAVING" ((Operand.ofNode n).bind (·.filter s))
  let sortSteps ← Outcome.inClause "ORDER BY" (orderSteps s items q.orderBy)
  let projection ← Outcome.inClause "SELECT" (projectionSteps s items)
  let limit := limitSteps q.limit maxRows
  let result := if q.distinct then projection ++ [.dedup] ++ limit else limit ++ projection
  let steps := fromSteps ++ whereSteps ++ groupSteps ++ havingSteps ++ sortSteps ++ result
  return {
    traversal := ⟨source, steps⟩
    columns := items.map fun i => ⟨i.name, i.type⟩ }

end GraphSelect
