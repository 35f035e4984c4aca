import GraphSelect.Number.Quantity
import GraphSelect.Text.Quoted

/-!
Constants that are not made of others, with their texts and their loose equality, under which
numbers of different kinds are equal when they denote the same number and true counts as one.
-/

namespace GraphSelect

open Text

inductive Scalar where
  | null
  | bool (b : Bool)
  | int (n : Int)
  | decimal (d : Decimal)
  | double (x : Double)
  | text (s : String)
  /-- The constant of a character literal, which is written in SQL quotes. -/
  | chars (s : String)
  deriving DecidableEq, Inhabited

namespace Scalar

/-- The text of a constant inside a list, where texts are quoted. -/
def inner : Scalar → String
  | .null => "None"
  | .bool b => if b then "True" else "False"
  | .int n => ofInt n
  | .decimal d => "Decimal('" ++ d.text ++ "')"
  | .double x => x.text
  | .text s => displayed s
  | .chars s => "CharString(value=" ++ displayed s ++ ")"

/-- The text of a constant on its own. -/
def plain : Scalar → String
  | .decimal d => d.text
  | .text s => s
  | .chars s => singleQuoted s
  | c => c.inner

/-- The text of a constant in a query. -/
def sql : Scalar → String
  | .null => "NULL"
  | .bool b => if b then "TRUE" else "FALSE"
  | c => c.plain

/-- The text of a constant in a traversal. Decimals and doubles carry a suffix. -/
def rendered : Scalar → String
  | .null => "null"
  | .bool b => if b then "true" else "false"
  | .int n => ofInt n
  | .decimal d => d.text ++ "G"
  | .double x => x.text ++ "d"
  | c => escaped c.plain

def negate : Scalar → Scalar
  | .int n => .int (-n)
  | .decimal d => .decimal d.negate
  | .double x => .double x.negate
  | c => c

/-- The number that a constant counts as. -/
def quantity? : Scalar → Option Quantity
  | .bool b => some (.ofInt (if b then 1 else 0))
  | .int n => some (.ofInt n)
  | .decimal d => Quantity.ofDecimal? d
  | .double x => Quantity.ofDouble? x
  | .null | .text _ | .chars _ => none

def same : Scalar → Scalar → Bool
  | .null, .null => true
  | .text s, .text t => s = t
  | .chars s, .chars t => s = t
  | c, d =>
    match c.quantity?, d.quantity? with
    | some a, some b => a.equal b
    | _, _ => false

end Scalar

end GraphSelect
