import GraphSelect.Query.Parser.Precedence
import GraphSelect.Text.Quoted

/-!
What a token does to the unfinished constructs.

Whatever ends an expression completes all of its operators and hands it to the construct around
it. A token that the construct has no place for is refused.
-/

namespace GraphSelect.Parser

open Text

inductive Refusal where
  | unexpected
  | unknownType (name : String)
  deriving DecidableEq, Inhabited

abbrev Move := Except Refusal State

def refused : Move := .error .unexpected

def go (phase : Phase) (stack : List Frame) : Move := .ok ⟨phase, stack⟩

def infixStep (op : Operator) (e : Node) (tail : Tail) (stack : List Frame) : Move :=
  if precedence op = 4 then
    match comparand? e tail stack with
    | some (e, rest) => go (.operand .strict) (.infixed op e :: rest)
    | none => refused
  else if precedence op < 4 then
    let (e, rest) := reduce (precedence op) e stack
    go (.operand .condition) (.infixed op e :: rest)
  else if tail = .test then refused
  else
    let (e, rest) := reduce (precedence op) e stack
    go (.operand .strict) (.infixed op e :: rest)

/-- The text inside the quotes of a token, with doubled quotes written once. -/
def unquoted (quote : Char) (text : List Char) : String :=
  String.ofList (undouble quote (text.drop 1).dropLast)

def name? (t : Token) : Option String :=
  match t.terminal with
  | .name => some (String.ofList t.text)
  | .quotedName => some (unquoted '"' t.text)
  | _ => none

def literal? (t : Token) : Option Literal :=
  match t.terminal with
  | .integer | .decimal => some (.ofExact (String.ofList t.text))
  | .approximate => some (.ofApproximate (String.ofList t.text))
  | .string => some (.ofChars (unquoted '\'' t.text))
  | .keyword .true => some (.ofBool true)
  | .keyword .false => some (.ofBool false)
  | .keyword .null => some .null
  | _ => none

def star : Node := .identifier ⟨["*"], none⟩

def column (names : List String) : Node := .identifier ⟨names, none⟩

def functionCall (name : String) (distinct : Bool) (arguments : List Node) : Node :=
  .call ⟨.ofFunctionName name, distinct, none⟩ arguments

def addItem (q : Select) (e : Node) : Select :=
  { q with items := q.items ++ [e] }

def addKey (q : Select) (e : Node) (descending : Bool) : Select :=
  { q with orderBy := q.orderBy ++ [⟨e, descending⟩] }

/-- The first token of an operand, or one of those that may stand in its place. -/
def operandStep (opening : Opening) (stack : List Frame) (t : Token) : Move :=
  match t.terminal, opening, stack with
  | .keyword .select, .bracket, _ => go (.operand .select) (.query .empty .items :: stack)
  | .keyword .distinct, .select, .query q c :: rest =>
    go (.operand .distinct) (.query { q with distinct := true } c :: rest)
  | .keyword .distinct, .arguments, .arguments n _ read :: rest =>
    go (.operand .distinct) (.arguments n true read :: rest)
  | .sign .star, .select, .query q c :: rest
  | .sign .star, .distinct, .query q c :: rest
  | .sign .star, .item, .query q c :: rest => go (.ended .star) (.query (addItem q star) c :: rest)
  | .sign .star, .arguments, .arguments n d _ :: rest
  | .sign .star, .distinct, .arguments n d _ :: rest =>
    go .starArgument (.arguments n d [star] :: rest)
  | .sign .closing, .arguments, .arguments n d read :: rest
  | .sign .closing, .distinct, .arguments n d read :: rest =>
    go (.value (functionCall n d read) .atom) rest
  | .keyword .not, .strict, _ => refused
  | .keyword .not, _, _ => go (.operand .condition) (.prefixed .not :: stack)
  | .sign .minus, _, _ => go (.operand .strict) (.prefixed .negate :: stack)
  | .sign .opening, _, _ => go (.operand .bracket) (.bracket :: stack)
  | .keyword .cast, _, _ => go .cast stack
  | _, _, _ =>
    match name? t, literal? t with
    | some n, _ => go (.value (column [n]) .name) stack
    | none, some l => go (.value (.literal l) .atom) stack
    | none, none => refused

/-- A select whose current clause has a complete last entry, and the constructs around it. -/
structure Settled where
  select : Select
  clause : Clause
  rest : List Frame

/-- Makes a complete expression the last entry of the clause around it. -/
def settle? (e : Node) : List Frame → Option Settled
  | .joinOn left kind right :: .query q .source :: rest =>
    some ⟨{ q with source := some (.join left kind (.table right) (some e)) }, .source, rest⟩
  | .query q .items :: rest => some ⟨addItem q e, .items, rest⟩
  | .query q .filter :: rest => some ⟨{ q with filter := some e }, .filter, rest⟩
  | .query q .groupBy :: rest => some ⟨{ q with groupBy := q.groupBy ++ [e] }, .groupBy, rest⟩
  | .query q .having :: rest => some ⟨{ q with having := some e }, .having, rest⟩
  | .query q .orderBy :: rest => some ⟨addKey q e false, .orderBy, rest⟩
  | _ => none

/-- A table on its own, or joined without a condition. -/
def joined (joining : Option Joining) (table : TableRef) : Node :=
  match joining with
  | none => .table table
  | some j => .join j.left j.kind (.table table) none

/-- The state as a select with a complete last entry, if it is one. -/
def State.settled? : State → Option Settled
  | ⟨.value e _, stack⟩ =>
    let (e, rest) := reduce 0 e stack
    settle? e rest
  | ⟨.tableRead joining table, .query q .source :: rest⟩ =>
    some ⟨{ q with source := some (joined joining table) }, .source, rest⟩
  | ⟨.ended _, .query q c :: rest⟩ => some ⟨q, c, rest⟩
  | _ => none

/-- The word that begins a join, its kind, and whether `OUTER` may follow. -/
def joinWord? : Keyword → Option (JoinKind × Bool)
  | .inner => some (.inner, false)
  | .cross => some (.cross, false)
  | .left => some (.left, true)
  | .right => some (.right, true)
  | .full => some (.full, true)
  | _ => none

/-- The clause that a word begins, and the phase behind the word. -/
def clauseWord? : Keyword → Option (Clause × Phase)
  | .from => some (.source, .tableName none)
  | .where => some (.filter, .operand .condition)
  | .group => some (.groupBy, .by .groupBy)
  | .having => some (.having, .operand .condition)
  | .order => some (.orderBy, .by .orderBy)
  | .limit => some (.limit, .count .limit)
  | .offset => some (.offset, .count .offset)
  | _ => none

/-- The token behind a complete entry: another entry, a later clause, or the end of a sub-query. -/
def settledStep (s : Settled) (t : Token) : Move :=
  let same := Frame.query s.select s.clause :: s.rest
  match t.terminal, s.clause, s.select.source, s.rest with
  | .sign .comma, .items, _, _ => go (.operand .item) same
  | .sign .comma, .groupBy, _, _ => go (.operand .condition) same
  | .sign .comma, .orderBy, _, _ => go (.operand .condition) same
  | .sign .comma, .source, some left, _ => go (.tableName (some ⟨left, .comma⟩)) same
  | .sign .closing, _, _, .bracket :: rest =>
    go (.value (.apply .scalarQuery [.select s.select]) .atom) rest
  | .keyword .join, .source, some left, _ => go (.tableName (some ⟨left, .inner⟩)) same
  | .keyword k, clause, source, rest =>
    match joinWord? k, source, clauseWord? k with
    | some (kind, outer), some left, _ =>
      if clause = .source then go (.joinWord left kind outer) same else refused
    | _, _, some (next, phase) =>
      if clause.rank < next.rank then go phase (.query s.select next :: rest) else refused
    | _, _, none => refused
  | _, _, _, _ => refused

/-- The token that ends an expression, in the construct around it. -/
def expressionEnd (e : Node) (stack : List Frame) (t : Token) : Move :=
  match reduce 0 e stack, t.terminal, name? t with
  | (e, .bracket :: rest), .sign .closing, _ => go (.value e .atom) rest
  | (e, .arguments n d read :: rest), .sign .comma, _ =>
    go (.operand .condition) (.arguments n d (read ++ [e]) :: rest)
  | (e, .arguments n d read :: rest), .sign .closing, _ =>
    go (.value (functionCall n d (read ++ [e])) .atom) rest
  | (e, .castOperand :: rest), .keyword .as, _ => go .typeName (.castTarget e :: rest)
  | (e, .members x read :: rest), .sign .comma, _ =>
    go (.operand .condition) (.members x (read ++ [e]) :: rest)
  | (e, .members x read :: rest), .sign .closing, _ =>
    go (.value (.apply .within [x, .list (read ++ [e])]) .test) rest
  | (e, .query q .items :: rest), .keyword .as, _ => go (.itemAlias e) (.query q .items :: rest)
  | (e, .query q .items :: rest), _, some n =>
    go (.ended .name) (.query (addItem q (.named e n)) .items :: rest)
  | (e, .query q .orderBy :: rest), .keyword .asc, _ =>
    go (.ended .direction) (.query (addKey q e false) .orderBy :: rest)
  | (e, .query q .orderBy :: rest), .keyword .desc, _ =>
    go (.ended .direction) (.query (addKey q e true) .orderBy :: rest)
  | (e, rest), _, _ =>
    match settle? e rest with
    | some s => settledStep s t
    | none => refused

/-- Whether the operand just read is the start of a select item. -/
def atItemStart : List Frame → Bool
  | .query _ .items :: _ => true
  | _ => false

/-- The token behind a complete operand. -/
def valueStep (e : Node) (tail : Tail) (stack : List Frame) (t : Token) : Move :=
  match t.terminal, infixed? t.terminal, tail, e with
  | _, some op, _, _ => infixStep op e tail stack
  | .keyword .is, _, _, _ =>
    match comparand? e tail stack with
    | some (e, rest) => go (.is e) rest
    | none => refused
  | .keyword .in, _, _, _ =>
    match comparand? e tail stack with
    | some (e, rest) => go (.within e) rest
    | none => refused
  | .sign .dot, _, .name, .identifier ⟨[n], _⟩ => go (.qualifier n (atItemStart stack)) stack
  | .sign .opening, _, .name, .identifier ⟨[n], _⟩ =>
    go (.operand .arguments) (.arguments n false [] :: stack)
  | _, _, _, _ => expressionEnd e stack t

/-- The token behind a table, which may name or join it. -/
def tableStep (joining : Option Joining) (table : TableRef) (stack : List Frame) (t : Token) :
    Move :=
  match t.terminal, name? t, table.asName, joining with
  | .keyword .as, _, none, _ => go (.tableAlias joining table) stack
  | _, some n, none, _ => go (.tableRead joining { table with asName := some n }) stack
  | .keyword .on, _, _, some j =>
    if j.kind = .comma then refused
    else go (.operand .condition) (.joinOn j.left j.kind table :: stack)
  | _, _, _, _ =>
    match State.settled? ⟨.tableRead joining table, stack⟩ with
    | some s => settledStep s t
    | none => refused

/-- The bracket that closes a cast. -/
def castEnd (name : String) (precision scale : Option Int) (stack : List Frame) : Move :=
  match TypeName.lookup name, stack with
  | none, _ => .error (.unknownType name)
  | some type, .castTarget e :: rest =>
    go (.value (.apply .cast [e, .typeSpec ⟨type, precision, scale⟩]) .atom) rest
  | some _, _ => refused

def step (s : State) (t : Token) : Move :=
  match s.phase, t.terminal, s.stack with
  | .start, .keyword .select, stack => go (.operand .select) (.query .empty .items :: stack)
  | .operand opening, _, stack => operandStep opening stack t
  | .value e tail, _, stack => valueStep e tail stack t
  | .qualifier n true, .sign .star, .query q .items :: rest =>
    go (.ended .star) (.query (addItem q (column [n, "*"])) .items :: rest)
  | .qualifier n _, _, stack =>
    match name? t with
    | some m => go (.value (column [n, m]) .name) stack
    | none => refused
  | .starArgument, .sign .closing, .arguments n d read :: rest =>
    go (.value (functionCall n d read) .atom) rest
  | .is e, .keyword .null, stack => go (.value (.apply .isNull [e]) .test) stack
  | .is e, .keyword .not, stack => go (.isNot e) stack
  | .isNot e, .keyword .null, stack => go (.value (.apply .isNotNull [e]) .test) stack
  | .within e, .sign .opening, stack => go (.operand .condition) (.members e [] :: stack)
  | .cast, .sign .opening, stack => go (.operand .condition) (.castOperand :: stack)
  | .typeName, .name, stack => go (.typeNamed (String.ofList t.text)) stack
  | .typeNamed n, .sign .closing, stack => castEnd n none none stack
  | .typeNamed n, .sign .opening, stack => go (.precision n) stack
  | .precision n, .integer, stack => go (.precisionRead n (natOfDigits t.text)) stack
  | .precisionRead n p, .sign .closing, stack => go (.typeSized n p none) stack
  | .precisionRead n p, .sign .comma, stack => go (.scale n p) stack
  | .scale n p, .integer, stack => go (.scaleRead n p (natOfDigits t.text)) stack
  | .scaleRead n p q, .sign .closing, stack => go (.typeSized n p (some q)) stack
  | .typeSized n p q, .sign .closing, stack => castEnd n (some p) q stack
  | .itemAlias e, _, .query q .items :: rest =>
    match name? t with
    | some n => go (.ended .name) (.query (addItem q (.named e n)) .items :: rest)
    | none => refused
  | .tableName joining, _, stack =>
    match name? t with
    | some n => go (.tableRead joining ⟨n, none⟩) stack
    | none => refused
  | .tableRead joining table, _, stack => tableStep joining table stack t
  | .tableAlias joining table, _, stack =>
    match name? t with
    | some n => go (.tableRead joining { table with asName := some n }) stack
    | none => refused
  | .joinWord left kind true, .keyword .outer, stack => go (.joinWord left kind false) stack
  | .joinWord left kind _, .keyword .join, stack => go (.tableName (some ⟨left, kind⟩)) stack
  | .ended ending, _, stack =>
    match State.settled? ⟨.ended ending, stack⟩ with
    | some settled => settledStep settled t
    | none => refused
  | .by _, .keyword .by, stack => go (.operand .condition) stack
  | .count .limit, .integer, .query q c :: rest =>
    let n := Literal.ofExact (String.ofList t.text)
    go (.ended .limit) (.query { q with limit := some n } c :: rest)
  | .count .offset, .integer, .query q c :: rest =>
    let n := Literal.ofExact (String.ofList t.text)
    go (.ended .offset) (.query { q with offset := some n } c :: rest)
  | _, _, _ => refused

/-- The query, if the text may end here. -/
def State.finish? (s : State) : Option Select :=
  match s.settled? with
  | some ⟨q, _, []⟩ => some q
  | _ => none

end GraphSelect.Parser
