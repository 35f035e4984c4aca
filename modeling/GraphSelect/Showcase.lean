import GraphSelect.Catalog.Description
import GraphSelect.Conversion

/-!
A report on queries and their traversals over a small catalog of people, spaceships and planets.
-/

namespace GraphSelect.Showcase

def column (name type : String) : ColumnDescription := ⟨some name, none, some type⟩

def table (name : String) (columns : List ColumnDescription) : TableDescription :=
  ⟨some name, none, none, columns⟩

def edge (label outTable inTable : String) : EdgeDescription :=
  ⟨some label, some outTable, some inTable, none, none⟩

def description : CatalogDescription where
  tables :=
    [table "person"
       [column "name" "VARCHAR", column "age" "INTEGER", column "wentToSpace" "BOOLEAN"],
     table "spaceship" [column "model" "VARCHAR", column "manufacturer" "VARCHAR"],
     table "planet" [column "name" "VARCHAR", column "moons" "INTEGER"]]
  edges :=
    [edge "knows" "person" "person", edge "pilots" "person" "spaceship",
     edge "visits" "spaceship" "planet"]

def catalog : Catalog :=
  match Catalog.ofDescription description with
  | .ok c => c
  | .error _ => ⟨[], []⟩

def converter : Converter := ⟨catalog, some "g", none⟩

/-- A result column as a pair of its name and its type. -/
def columnText (c : ResultColumn) : String :=
  "(" ++ Text.displayed c.name ++ ", " ++ Text.displayed c.type.name ++ ")"

def syntaxMessage (text : String) : SyntaxError → String
  | .unknownType name => "Unknown data type: " ++ name
  | .unexpected what pos =>
    let found := match what with
      | .ending => "end of text"
      | .token => "token"
      | .character => "character"
    "Failed to parse SQL query: unexpected " ++ found ++ " at line " ++ Text.ofInt pos.line ++
      ", column " ++ Text.ofInt pos.column ++ "\nQuery: " ++ text

def errorMessage (text : String) : ConversionError → String
  | .unreadable e => syntaxMessage text e
  | .failed (.fault f) => f.message
  | .failed .missingOperand => "a call lacks an operand"

/-- The lines on one query: its title, its text, and its traversal or why it has none. -/
def report (title sql : String) : String :=
  let rule := String.ofList (List.replicate 80 '=')
  let result := match converter.convert sql with
    | .ok t =>
      ["\nGenerated Gremlin:", t.traversal.render,
       "\nColumns: [" ++ ", ".intercalate (t.columns.map columnText) ++ "]"]
    | .error e => ["\nError: " ++ errorMessage sql e]
  let lines := ["\n" ++ rule, "Example: " ++ title, rule, "\nSQL Query:", sql] ++ result
  String.join (lines.map (· ++ "\n"))

/-- The queries of the report, under their titles. -/
def queries : List (String × String) :=
  [("Simple Filter", "SELECT name, age FROM person WHERE age > 30"),
   ("Boolean Logic",
    "\n        SELECT name FROM person\n" ++
    "        WHERE (age >= 18 OR wentToSpace = TRUE) AND name IS NOT NULL\n        "),
   ("Join Over Edge",
    "\n        SELECT p.name, s.model\n        FROM person p\n" ++
    "        INNER JOIN spaceship s ON p.name = s.model\n        "),
   ("Multi-hop Join",
    "\n        SELECT p.name, pl.name AS planet\n        FROM person p\n" ++
    "        JOIN spaceship s ON p.name = s.model\n" ++
    "        JOIN planet pl ON s.model = pl.name\n        "),
   ("Group By With Having",
    "\n        SELECT age, COUNT(*) AS people\n        FROM person\n        GROUP BY age\n" ++
    "        HAVING COUNT(*) > 1\n        ORDER BY people DESC\n        LIMIT 10\n        "),
   ("Computed Columns", "SELECT age * 2 AS double_age, CAST(age AS VARCHAR) FROM person"),
   ("OFFSET", "SELECT name FROM person OFFSET 1"),
   ("Scalar Sub-query",
    "SELECT name FROM person WHERE age = (SELECT age FROM person WHERE name = 'Tom')"),
   ("Non-grouped Column", "SELECT name, COUNT(*) FROM person GROUP BY age")]

def all : String :=
  String.join (queries.map fun q => report q.1 q.2)

end GraphSelect.Showcase
