import GraphSelect.Fault
import GraphSelect.Query.TypeName

/-!
The catalog: which tables there are, which labels and properties of the graph stand behind them,
and along which edges tables can be joined. Names are compared without regard to case.
-/

namespace GraphSelect

open Text

structure Column where
  name : String
  property : String
  type : TypeName
  deriving DecidableEq, Inhabited

/-- What a row of a table is. -/
inductive ElementKind where
  | vertex | edge
  deriving DecidableEq, Inhabited

structure Table where
  name : String
  label : String
  columns : List Column
  kind : ElementKind
  deriving DecidableEq, Inhabited

/-- Whether two names differ at most in case. -/
def sameName (a b : String) : Bool :=
  lower a = lower b

namespace Table

/-- The first column of a name. -/
def column? (t : Table) (name : String) : Option Column :=
  t.columns.find? fun c => sameName c.name name

def isVertex (t : Table) : Bool :=
  t.kind = .vertex

end Table

/-- An edge along which two tables can be joined. If it names columns, a join must equate them. -/
structure Edge where
  label : String
  outTable : String
  inTable : String
  outColumn : Option String
  inColumn : Option String
  deriving DecidableEq, Inhabited

/-- The way an edge is walked. -/
inductive Direction where
  | out | in
  deriving DecidableEq, Inhabited

def Direction.opposite : Direction → Direction
  | .out => .in
  | .in => .out

/-- An edge and the way it is walked from one table to another. -/
structure Walk where
  edge : Edge
  direction : Direction
  deriving DecidableEq, Inhabited

structure Catalog where
  tables : List Table
  edges : List Edge
  deriving DecidableEq, Inhabited

namespace Catalog

/-- Adds a table, in the place of the one that has its name. -/
def addTable : List Table → Table → List Table
  | [], t => [t]
  | u :: us, t => if sameName u.name t.name then t :: us else u :: addTable us t

def ofTables (tables : List Table) (edges : List Edge) : Catalog :=
  ⟨tables.foldl addTable [], edges⟩

def table? (c : Catalog) (name : String) : Option Table :=
  c.tables.find? fun t => sameName t.name name

def table (c : Catalog) (name : String) : Outcome Table :=
  match c.table? name with
  | some t => .ok t
  | none => .fault (.unknownTable name)

def label (c : Catalog) (name : String) : Outcome String :=
  (c.table name).map (·.label)

def column (c : Catalog) (table column : String) : Outcome Column := do
  match (← c.table table).column? column with
  | some found => .ok found
  | none => .fault (.unknownIdentifier (table ++ "." ++ column))

def property (c : Catalog) (table column : String) : Outcome String :=
  (c.column table column).map (·.property)

/-- Whether two names are both given and differ at most in case. -/
def sameGiven : Option String → Option String → Bool
  | some a, some b => sameName a b
  | _, _ => false

/-- Whether an edge with the given key columns may join the given columns. -/
def keysMatch (edgeA edgeB a b : Option String) : Bool :=
  (edgeA.isNone && edgeB.isNone) || (sameGiven edgeA a && sameGiven edgeB b)

/-- The way to walk one edge from table `a` to table `b`. An edge between rows of one table is
walked outwards. -/
def walkAlong? (a b : String) (columnA columnB : Option String) (e : Edge) : Option Walk :=
  if sameName e.outTable a && sameName e.inTable b &&
      keysMatch e.outColumn e.inColumn columnA columnB then
    some ⟨e, .out⟩
  else if sameName e.inTable a && sameName e.outTable b &&
      keysMatch e.inColumn e.outColumn columnA columnB then
    some ⟨e, .in⟩
  else none

/-- The first edge that joins table `a` to table `b`, and the way to walk it. -/
def walk (c : Catalog) (a b : String) (columnA columnB : Option String) : Outcome Walk :=
  match c.edges.findSome? (walkAlong? a b columnA columnB) with
  | some w => .ok w
  | none => .fault (.joinNotSupported ("no edge joins '" ++ a ++ "' to '" ++ b ++ "'"))

end Catalog

end GraphSelect
