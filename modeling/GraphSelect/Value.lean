import GraphSelect.Scalar

/-!
The values of literals and result rows: constants and lists of values.
-/

namespace GraphSelect

open Text

inductive Value where
  | scalar (c : Scalar)
  | list (vs : List Value)
  deriving Inhabited

/-- The text of a list from the texts of what it holds. -/
def bracketed (ts : List String) : String :=
  "[" ++ ", ".intercalate ts ++ "]"

namespace Value

@[match_pattern] abbrev null : Value := .scalar .null
@[match_pattern] abbrev bool (b : Bool) : Value := .scalar (.bool b)
@[match_pattern] abbrev int (n : Int) : Value := .scalar (.int n)
@[match_pattern] abbrev decimal (d : Decimal) : Value := .scalar (.decimal d)
@[match_pattern] abbrev double (x : Double) : Value := .scalar (.double x)
@[match_pattern] abbrev text (s : String) : Value := .scalar (.text s)
@[match_pattern] abbrev chars (s : String) : Value := .scalar (.chars s)

mutual
/-- The text of a value inside a list. -/
def inner : Value → String
  | .scalar c => c.inner
  | .list vs => bracketed (innerEach vs)

def innerEach : List Value → List String
  | [] => []
  | v :: vs => inner v :: innerEach vs
end

/-- The text of a value on its own. -/
def plain : Value → String
  | .scalar c => c.plain
  | .list vs => (Value.list vs).inner

/-- The text of a value in a query. -/
def sql : Value → String
  | .scalar c => c.sql
  | .list vs => (Value.list vs).inner

/-- The text of a value in a traversal, where a list is a text. -/
def rendered : Value → String
  | .scalar c => c.rendered
  | .list vs => escaped (Value.list vs).inner

def negate : Value → Value
  | .scalar c => .scalar c.negate
  | .list vs => .list vs

/-- The number that a value counts as. -/
def quantity? : Value → Option Quantity
  | .scalar c => c.quantity?
  | .list _ => none

end Value

end GraphSelect
