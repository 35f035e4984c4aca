import GraphSelect.Catalog
import GraphSelect.Text.Quoted

/-!
Catalogs from their description, in which most entries may be missing: a column is a text stored
under its own name, a table a vertex with its own name as label, unless something else is said.
What has no such default must be there.
-/

namespace GraphSelect

structure ColumnDescription where
  name : Option String
  property : Option String
  type : Option String
  deriving Inhabited

structure TableDescription where
  name : Option String
  label : Option String
  kind : Option String
  columns : List ColumnDescription
  deriving Inhabited

structure EdgeDescription where
  label : Option String
  outTable : Option String
  inTable : Option String
  outColumn : Option String
  inColumn : Option String
  deriving Inhabited

structure CatalogDescription where
  tables : List TableDescription
  edges : List EdgeDescription
  deriving Inhabited

/-- Why a description is not one of a catalog. -/
inductive CatalogError where
  | missing (key : String)
  | unknownType (type table : String)
  | unknownKind (kind : String)
  deriving DecidableEq, Inhabited

namespace CatalogError

def message : CatalogError → String
  | .missing key => Text.displayed key
  | .unknownType type table => "Unknown column type '" ++ type ++ "' in table '" ++ table ++ "'"
  | .unknownKind kind => Text.displayed kind ++ " is not a valid TableKind"

end CatalogError

/-- An entry without a default. -/
def required (key : String) : Option String → Except CatalogError String
  | some s => .ok s
  | none => .error (.missing key)

namespace ColumnDescription

/-- The column of a table. A type that is not known is reported with the table's name, so a table
without a name is reported instead. -/
def column (d : ColumnDescription) (table : Option String) : Except CatalogError Column := do
  let typeName := d.type.getD "VARCHAR"
  let type ← match TypeName.lookup typeName with
    | some t => .ok t
    | none => (required "name" table).bind fun name => .error (.unknownType typeName name)
  let name ← required "name" d.name
  return ⟨name, d.property.getD name, type⟩

end ColumnDescription

namespace TableDescription

def kindOf (name : String) : Except CatalogError ElementKind :=
  if name = "vertex" then .ok .vertex
  else if name = "edge" then .ok .edge
  else .error (.unknownKind name)

/-- The columns are read before the rest. -/
def table (d : TableDescription) : Except CatalogError Table := do
  let columns ← d.columns.mapM (·.column d.name)
  let name ← required "name" d.name
  let kind ← kindOf (d.kind.getD "vertex")
  return ⟨name, d.label.getD name, columns, kind⟩

end TableDescription

namespace EdgeDescription

def edge (d : EdgeDescription) : Except CatalogError Edge := do
  return ⟨← required "label" d.label, ← required "out" d.outTable, ← required "in" d.inTable,
    d.outColumn, d.inColumn⟩

end EdgeDescription

namespace Catalog

/-- The catalog of a description. Of two tables of one name the later one counts. -/
def ofDescription (d : CatalogDescription) : Except CatalogError Catalog := do
  let tables ← d.tables.mapM (·.table)
  let edges ← d.edges.mapM (·.edge)
  return ofTables tables edges

end Catalog

end GraphSelect
