import GraphSelect.Query.Parser
import GraphSelect.Query.Resolution
import GraphSelect.Plan
import GraphSelect.Traversal.Printer

/-!
From the text of a query to its traversal, and from the results of the traversal back to rows.
-/

namespace GraphSelect

/-- Why a text has no traversal. -/
inductive ConversionError where
  | unreadable (e : SyntaxError)
  | failed (f : Failure)
  deriving DecidableEq, Inhabited

/-- What all conversions share: the catalog, the source of the traversals, and the greatest number
of rows they may emit. -/
structure Converter where
  catalog : Catalog
  source : Option String
  maxRows : Option Int
  deriving Inhabited

namespace Converter

def resolve (c : Converter) (q : Select) : Outcome Select :=
  q.resolve c.catalog

def plan (c : Converter) (q : Select) : Outcome Plan :=
  GraphSelect.plan c.catalog c.source c.maxRows q

def convert (c : Converter) (text : String) : Except ConversionError Plan := do
  let q ← (Parser.parse text).mapError .unreadable
  ((c.resolve q).bind c.plan).mapError .failed

/-- The text of the traversal that a query becomes. -/
def explain (c : Converter) (text : String) : Except ConversionError String :=
  (c.convert text).map (·.traversal.render)

end Converter

/-- What a traversal emits for one row: values by the names of the result columns. -/
abbrev ResultMap := List (String × Value)

/-- A value as it stands in a row. The mark for `NULL` becomes `NULL` again, which also stands for
a value that is missing. -/
def ResultMap.cell (result : ResultMap) (name : String) : Value :=
  match result.lookup name with
  | some (.text s) => if s = nullMark then .null else .text s
  | some v => v
  | none => .null

/-- The rows of a result, each with its values in the order of the columns. -/
def rows (columns : List ResultColumn) (results : List ResultMap) : List (List Value) :=
  results.map fun result => columns.map fun c => result.cell c.name

end GraphSelect
