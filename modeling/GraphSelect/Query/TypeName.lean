import GraphSelect.Text.Case

/-!
The types of columns and expressions.
-/

namespace GraphSelect

inductive TypeName where
  | boolean | tinyint | smallint | integer | bigint | decimal | real | float | double
  | char | varchar | date | time | timestamp | null | any
  deriving DecidableEq, Inhabited

namespace TypeName

def all : List TypeName :=
  [.boolean, .tinyint, .smallint, .integer, .bigint, .decimal, .real, .float, .double,
   .char, .varchar, .date, .time, .timestamp, .null, .any]

def name : TypeName → String
  | .boolean => "BOOLEAN"
  | .tinyint => "TINYINT"
  | .smallint => "SMALLINT"
  | .integer => "INTEGER"
  | .bigint => "BIGINT"
  | .decimal => "DECIMAL"
  | .real => "REAL"
  | .float => "FLOAT"
  | .double => "DOUBLE"
  | .char => "CHAR"
  | .varchar => "VARCHAR"
  | .date => "DATE"
  | .time => "TIME"
  | .timestamp => "TIMESTAMP"
  | .null => "NULL"
  | .any => "ANY"

/-- Other spellings of the names. -/
def spellings : List (String × TypeName) :=
  [("INT", .integer), ("BOOL", .boolean), ("NUMERIC", .decimal), ("DEC", .decimal),
   ("CHARACTER", .char), ("STRING", .varchar), ("TEXT", .varchar)]

/-- The type with a given name, in capitals. -/
def ofName? (name : String) : Option TypeName :=
  all.find? (·.name = name)

/-- The type that a name or another spelling of it stands for, in any case. -/
def lookup (name : String) : Option TypeName :=
  let capitals := Text.upper name
  (spellings.lookup capitals).or (ofName? capitals)

/-- The place of a numeric type among them from the narrowest to the widest. -/
def width? : TypeName → Option Nat
  | .tinyint => some 0
  | .smallint => some 1
  | .integer => some 2
  | .bigint => some 3
  | .decimal => some 4
  | .real => some 5
  | .float => some 6
  | .double => some 7
  | _ => none

def isNumeric (t : TypeName) : Bool :=
  t.width?.isSome

def isCharacter (t : TypeName) : Bool :=
  t = .char || t = .varchar

/-- The wider of two types. A type that is not numeric is narrower than every other. -/
def wider (s t : TypeName) : TypeName :=
  match s.width?, t.width? with
  | some a, some b => if a < b then t else s
  | none, some _ => t
  | _, none => s

/-- The widest of the numeric types in a list. -/
def widest (types : List TypeName) : TypeName :=
  match types.filter isNumeric with
  | [] => .any
  | t :: ts => ts.foldl wider t

end TypeName

end GraphSelect
