import GraphSelect.Query.Operator
import GraphSelect.Query.TypeName
import GraphSelect.Value

/-!
The tree of a query: expressions, tables, joins and the select itself, all of one type, since a
select may stand inside an expression.

The type admits more trees than the grammar does. A call has any number of operands, and the
functions on trees say what becomes of those that no text denotes.
-/

namespace GraphSelect

open Text

/-- A column, qualified by a table or not. The name `*` stands for all columns. -/
structure Identifier where
  names : List String
  type : Option TypeName
  deriving DecidableEq, Inhabited

namespace Identifier

/-- The last of the names. -/
def simple (i : Identifier) : String :=
  i.names.getLastD ""

def isStar (i : Identifier) : Bool :=
  i.simple = "*"

def isSimple (i : Identifier) : Bool :=
  i.names.length = 1

def text (i : Identifier) : String :=
  ".".intercalate i.names

end Identifier

structure Literal where
  value : Value
  type : TypeName
  deriving Inhabited

namespace Literal

def ofChars (s : String) : Literal := ⟨.chars s, .char⟩

def ofBool (b : Bool) : Literal := ⟨.bool b, .boolean⟩

def null : Literal := ⟨.null, .null⟩

/-- Whether a number fits 32 bits with a sign. -/
def isShort (n : Int) : Bool :=
  -2147483648 ≤ n && n < 2147483648

/-- The literal of a number without an exponent. With a point it is a decimal. -/
def ofExact (s : String) : Literal :=
  if s.toList.contains '.' then ⟨.decimal ((Decimal.read? s).getD default), .decimal⟩
  else
    let n := (int? s.toList).getD 0
    ⟨.int n, if isShort n then .integer else .bigint⟩

/-- The literal of a number with an exponent. -/
def ofApproximate (s : String) : Literal :=
  ⟨.double ((Double.read? s).getD default), .double⟩

/-- The type stays, also when the negated number belongs to another. -/
def negate (l : Literal) : Literal :=
  { l with value := l.value.negate }

/-- The constant as a text, without the quotes of a character literal. -/
def plain? (l : Literal) : Option String :=
  match l.value with
  | .null => none
  | .chars s => some s
  | v => some v.plain

/-- The value a traversal sees. A character literal gives a text, whatever it holds. -/
def native (l : Literal) : Value :=
  if l.type = .char then (l.plain?.map Value.text).getD .null else l.value

end Literal

/-- The target of a cast. -/
structure TypeSpec where
  type : TypeName
  precision : Option Int
  scale : Option Int
  deriving DecidableEq, Inhabited

namespace TypeSpec

def text (t : TypeSpec) : String :=
  match t.precision, t.scale with
  | none, _ => t.type.name
  | some p, none => t.type.name ++ "(" ++ ofInt p ++ ")"
  | some p, some s => t.type.name ++ "(" ++ ofInt p ++ ", " ++ ofInt s ++ ")"

end TypeSpec

structure TableRef where
  name : String
  asName : Option String
  deriving DecidableEq, Inhabited

namespace TableRef

/-- The name behind `AS`, unless it is missing or empty. -/
def asName? (t : TableRef) : Option String :=
  t.asName.filter (· ≠ "")

/-- The name that columns of the table are qualified with. -/
def binding (t : TableRef) : String :=
  t.asName?.getD t.name

def text (t : TableRef) : String :=
  match t.asName? with
  | some a => t.name ++ " AS " ++ a
  | none => t.name

end TableRef

inductive JoinKind where
  | inner | left | right | full | cross | comma
  deriving DecidableEq, Inhabited

def JoinKind.name : JoinKind → String
  | .inner => "INNER"
  | .left => "LEFT"
  | .right => "RIGHT"
  | .full => "FULL"
  | .cross => "CROSS"
  | .comma => "COMMA"

/-- An operator as it is applied, with the type of the result once that is known. -/
structure Call where
  operator : Operator
  distinct : Bool
  type : Option TypeName
  deriving DecidableEq, Inhabited

/-- An entry of an ordering. -/
structure SortKey (α : Type) where
  expression : α
  descending : Bool
  deriving DecidableEq, Inhabited

/-- The clauses of a select over expressions of type `α`. -/
structure SelectOf (α : Type) where
  distinct : Bool
  items : List α
  source : Option α
  filter : Option α
  groupBy : List α
  having : Option α
  orderBy : List (SortKey α)
  limit : Option Literal
  offset : Option Literal
  deriving Inhabited

inductive Node where
  | identifier (i : Identifier)
  | literal (l : Literal)
  | typeSpec (t : TypeSpec)
  | list (nodes : List Node)
  | call (c : Call) (operands : List Node)
  | table (t : TableRef)
  | join (left : Node) (kind : JoinKind) (right : Node) (condition : Option Node)
  | order (key : SortKey Node)
  | select (s : SelectOf Node)
  deriving Inhabited

abbrev Select := SelectOf Node

namespace Select

def empty : Select := ⟨false, [], none, none, [], none, [], none, none⟩

end Select

namespace Node

/-- An operator applied to operands, not typed yet. -/
def apply (op : Operator) (operands : List Node) : Node :=
  .call ⟨op, false, none⟩ operands

/-- A select item under another name. -/
def named (expression : Node) (name : String) : Node :=
  apply .rename [expression, .identifier ⟨[name], none⟩]

/-- The type that a node carries. Tables, joins, lists and selects carry none. -/
def type? : Node → Option TypeName
  | .identifier i => i.type
  | .literal l => some l.type
  | .typeSpec t => some t.type
  | .call c _ => c.type
  | _ => none

def type (n : Node) : TypeName :=
  n.type?.getD .any

/-- The word for a kind of node in messages. -/
def kindName : Node → String
  | .identifier _ => "SqlIdentifier"
  | .literal _ => "SqlLiteral"
  | .typeSpec _ => "SqlDataTypeSpec"
  | .list _ => "SqlNodeList"
  | .call _ _ => "SqlBasicCall"
  | .table _ => "SqlTableRef"
  | .join _ _ _ _ => "SqlJoin"
  | .order _ => "SqlOrderItem"
  | .select _ => "SqlSelect"

end Node

end GraphSelect
