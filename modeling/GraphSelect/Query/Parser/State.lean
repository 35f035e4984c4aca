import GraphSelect.Query.Node
import GraphSelect.Query.Token

/-!
What the parser remembers between two tokens, and which terminals it lets the next token be.

The memory is a phase, which says what the last token was, over a stack of unfinished
constructs, innermost first. Which terminals are expected depends on the phase alone: the parser
expects whatever may follow such a token in some query, and refuses a token that does not fit the
stack when it has read it. So after the `(` of `IN` no keyword `SELECT` is expected, and the word
is read as a name; and after an operand every name is read whole, also where none can stand.
-/

namespace GraphSelect.Parser

/-- The clauses of a select in the order in which they follow each other. -/
inductive Clause where
  | items | source | filter | groupBy | having | orderBy | limit | offset
  deriving DecidableEq, Inhabited

def Clause.rank : Clause → Nat
  | .items => 0
  | .source => 1
  | .filter => 2
  | .groupBy => 3
  | .having => 4
  | .orderBy => 5
  | .limit => 6
  | .offset => 7

/-- An unfinished construct. -/
inductive Frame where
  /-- An infix operator that waits for its right operand. -/
  | infixed (op : Operator) (left : Node)
  | prefixed (op : Operator)
  /-- An opening bracket before an expression or a sub-query. -/
  | bracket
  | arguments (name : String) (distinct : Bool) (read : List Node)
  /-- A cast before its `AS`. -/
  | castOperand
  /-- A cast after its `AS`. -/
  | castTarget (operand : Node)
  | members (element : Node) (read : List Node)
  /-- A join that waits for the end of its condition. -/
  | joinOn (left : Node) (kind : JoinKind) (right : TableRef)
  /-- A select and the clause of it that is being read. -/
  | query (select : Select) (clause : Clause)
  deriving Inhabited

/-- Where an operand may begin, and what may stand there instead. -/
inductive Opening where
  /-- Behind an operator that binds more tightly than `NOT`. -/
  | strict
  | condition
  /-- Behind a bracket: an expression or a sub-query. -/
  | bracket
  | select
  | distinct
  | item
  | arguments
  deriving DecidableEq, Inhabited

/-- The last token of an operand. -/
inductive Tail where
  | name
  | atom
  /-- The end of `IS NULL` or of a list behind `IN`, which cannot be compared further. -/
  | test
  deriving DecidableEq, Inhabited

/-- The last token of a finished entry of a clause. -/
inductive Ending where
  | name | star | direction | limit | offset
  deriving DecidableEq, Inhabited

/-- A table that waits to be joined to what stands to its left. -/
structure Joining where
  left : Node
  kind : JoinKind
  deriving Inhabited

inductive Phase where
  | start
  | operand (opening : Opening)
  /-- After a complete operand. -/
  | value (e : Node) (tail : Tail)
  /-- After a name and a point. A star may follow at the start of a select item. -/
  | qualifier (name : String) (starAllowed : Bool)
  /-- After a star in the brackets of a function. -/
  | starArgument
  | is (e : Node)
  | isNot (e : Node)
  | within (e : Node)
  | cast
  | typeName
  | typeNamed (name : String)
  | precision (name : String)
  | precisionRead (name : String) (precision : Int)
  | scale (name : String) (precision : Int)
  | scaleRead (name : String) (precision scale : Int)
  /-- After the bracket that closes the sizes of a type. -/
  | typeSized (name : String) (precision : Int) (scale : Option Int)
  | itemAlias (e : Node)
  | tableName (joining : Option Joining)
  | tableRead (joining : Option Joining) (table : TableRef)
  | tableAlias (joining : Option Joining) (table : TableRef)
  /-- After a word that begins a join. -/
  | joinWord (left : Node) (kind : JoinKind) (outerAllowed : Bool)
  | ended (ending : Ending)
  /-- After `GROUP` or `ORDER`. -/
  | by (clause : Clause)
  /-- After `LIMIT` or `OFFSET`. -/
  | count (clause : Clause)
  deriving Inhabited

structure State where
  phase : Phase
  stack : List Frame
  deriving Inhabited

def State.initial : State := ⟨.start, []⟩

open Terminal in
/-- The terminals that begin an operand. -/
def operandStarts : List Terminal :=
  [approximate, decimal, name, quotedName, string, integer, sign .opening, sign .minus,
   keyword .cast, keyword .true, keyword .false, keyword .null]

def conditionStarts : List Terminal :=
  .keyword .not :: operandStarts

def Opening.expected : Opening → List Terminal
  | .strict => operandStarts
  | .condition => conditionStarts
  | .bracket => .keyword .select :: conditionStarts
  | .select => .keyword .distinct :: .sign .star :: conditionStarts
  | .distinct => .sign .closing :: .sign .star :: conditionStarts
  | .item => .sign .star :: conditionStarts
  | .arguments => .keyword .distinct :: .sign .closing :: .sign .star :: conditionStarts

open Terminal in
/-- The terminals behind an expression, in whatever clause it stands. -/
def expressionFollows : List Terminal :=
  [name, quotedName, sign .closing, sign .comma, keyword .and, keyword .or, keyword .as,
   keyword .asc, keyword .desc, keyword .from, keyword .where, keyword .group, keyword .having,
   keyword .order, keyword .limit, keyword .offset, keyword .join, keyword .inner, keyword .left,
   keyword .right, keyword .full, keyword .cross]

open Terminal in
/-- The terminals that go on with an operand of a comparison. -/
def operandFollows : List Terminal :=
  [sign .equal, sign .unequal, sign .bangEqual, sign .less, sign .greater, sign .lessOrEqual,
   sign .greaterOrEqual, sign .plus, sign .minus, sign .star, sign .slash, sign .percent,
   keyword .is, keyword .in, keyword .like] ++ expressionFollows

/-- The terminals behind a name, be it that of a column, a function, a table or a select item. -/
def nameFollows : List Terminal :=
  [.sign .dot, .sign .opening, .keyword .on] ++ operandFollows

def Tail.expected : Tail → List Terminal
  | .name => nameFollows
  | .atom => operandFollows
  | .test => expressionFollows

open Terminal in
def Ending.expected : Ending → List Terminal
  | .name => nameFollows
  | .star =>
    [sign .closing, sign .comma, keyword .from, keyword .where, keyword .group, keyword .having,
     keyword .order, keyword .limit, keyword .offset]
  | .direction => [sign .closing, sign .comma, keyword .limit, keyword .offset]
  | .limit => [sign .closing, keyword .offset]
  | .offset => [sign .closing]

def anyName : List Terminal := [.name, .quotedName]

def Phase.expected : Phase → List Terminal
  | .start => [.keyword .select]
  | .operand opening => opening.expected
  | .value _ tail => tail.expected
  | .qualifier _ starAllowed => if starAllowed then .sign .star :: anyName else anyName
  | .starArgument => [.sign .closing]
  | .is _ => [.keyword .not, .keyword .null]
  | .isNot _ => [.keyword .null]
  | .within _ => [.sign .opening]
  | .cast => [.sign .opening]
  | .typeName => [.name]
  | .typeNamed _ => [.sign .opening, .sign .closing]
  | .precision _ => [.integer]
  | .precisionRead _ _ => [.sign .closing, .sign .comma]
  | .scale _ _ => [.integer]
  | .scaleRead _ _ _ => [.sign .closing]
  | .typeSized _ _ _ => [.sign .closing]
  | .itemAlias _ => anyName
  | .tableName _ => anyName
  | .tableRead _ _ => nameFollows
  | .tableAlias _ _ => anyName
  | .joinWord _ _ outerAllowed =>
    if outerAllowed then [.keyword .join, .keyword .outer] else [.keyword .join]
  | .ended ending => ending.expected
  | .by _ => [.keyword .by]
  | .count _ => [.integer]

end GraphSelect.Parser
