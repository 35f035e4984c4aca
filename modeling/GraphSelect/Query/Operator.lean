import GraphSelect.Text.Case

/-!
Operators and functions of expressions, with their names and the way they are written.
-/

namespace GraphSelect

inductive Comparison where
  | equal | notEqual | less | greater | lessOrEqual | greaterOrEqual
  deriving DecidableEq, Inhabited

namespace Comparison

def symbol : Comparison → String
  | .equal => "="
  | .notEqual => "<>"
  | .less => "<"
  | .greater => ">"
  | .lessOrEqual => "<="
  | .greaterOrEqual => ">="

/-- The same comparison with its sides exchanged. -/
def flip : Comparison → Comparison
  | .equal => .equal
  | .notEqual => .notEqual
  | .less => .greater
  | .greater => .less
  | .lessOrEqual => .greaterOrEqual
  | .greaterOrEqual => .lessOrEqual

end Comparison

inductive Arithmetic where
  | plus | minus | times | divide | modulo
  deriving DecidableEq, Inhabited

def Arithmetic.symbol : Arithmetic → String
  | .plus => "+"
  | .minus => "-"
  | .times => "*"
  | .divide => "/"
  | .modulo => "%"

inductive Aggregate where
  | count | sum | average | min | max
  deriving DecidableEq, Inhabited

namespace Aggregate

def all : List Aggregate := [.count, .sum, .average, .min, .max]

def name : Aggregate → String
  | .count => "COUNT"
  | .sum => "SUM"
  | .average => "AVG"
  | .min => "MIN"
  | .max => "MAX"

end Aggregate

inductive Operator where
  | comparison (c : Comparison)
  | and
  | or
  | not
  | isNull
  | isNotNull
  | arithmetic (a : Arithmetic)
  | negate
  | cast
  | aggregate (a : Aggregate)
  /-- Gives a select item its name. -/
  | rename
  | scalarQuery
  | like
  /-- Membership in a list. -/
  | within
  /-- Any other function, by its name in capitals. -/
  | function (name : String)
  deriving DecidableEq, Inhabited

/-- How a call is written. -/
inductive Form where
  | between | before | after | function | special
  deriving DecidableEq

namespace Operator

def name : Operator → String
  | .comparison c => c.symbol
  | .and => "AND"
  | .or => "OR"
  | .not => "NOT"
  | .isNull => "IS NULL"
  | .isNotNull => "IS NOT NULL"
  | .arithmetic a => a.symbol
  | .negate => "-"
  | .cast => "CAST"
  | .aggregate a => a.name
  | .rename => "AS"
  | .scalarQuery => "SCALAR_QUERY"
  | .like => "LIKE"
  | .within => "IN"
  | .function name => name

def form : Operator → Form
  | .not | .negate => .before
  | .isNull | .isNotNull => .after
  | .aggregate _ | .function _ => .function
  | .cast | .scalarQuery => .special
  | _ => .between

/-- The function of a given name, in any case. The aggregates are functions too. -/
def ofFunctionName (name : String) : Operator :=
  let capitals := Text.upper name
  match Aggregate.all.find? (·.name = capitals) with
  | some a => .aggregate a
  | none => .function capitals

def isAggregate : Operator → Bool
  | .aggregate _ => true
  | _ => false

end Operator

end GraphSelect
