import GraphSelect.Query.Node

/-!
The text of a query tree.

An operand that is itself written with an infix or postfix operator stands in brackets, so that
the text shows how the tree is nested. A cast needs an operand and a type, and a scalar query a
query: a call that lacks them has no text, nor has any tree around it.
-/

namespace GraphSelect.Node

/-- Whether a node stands in brackets as an operand. -/
def isBracketed : Node → Bool
  | .call c _ => (c.operator.form = .between || c.operator.form = .after) && c.operator ≠ .rename
  | _ => false

def bracket (n : Node) (text : String) : String :=
  if n.isBracketed then "(" ++ text ++ ")" else text

def commas (texts : List String) : String :=
  ", ".intercalate texts

/-- Whether a prefix operator is a word, so that a blank separates it from its operand. -/
def isWord (op : Operator) : Bool :=
  op = .not

/-- The text of a call from the texts of its operands, where `nested` has them in brackets. -/
def callText? (c : Call) (plain nested : List (Option String)) : Option String :=
  match c.operator, c.operator.form, plain, nested with
  | .cast, _, _ :: target :: _, operand :: _ => do
    return "CAST(" ++ (← operand) ++ " AS " ++ (← target) ++ ")"
  | .cast, _, _, _ => none
  | .scalarQuery, _, query :: _, _ => do
    return "(" ++ (← query) ++ ")"
  | .scalarQuery, _, [], _ => none
  | op, .function, texts, _ => do
    let distinct := if c.distinct then "DISTINCT " else ""
    return op.name ++ "(" ++ distinct ++ commas (← texts.mapM id) ++ ")"
  | op, .before, _, [operand] => do
    return op.name ++ (if isWord op then " " else "") ++ (← operand)
  | op, .after, _, [operand] => do
    return (← operand) ++ " " ++ op.name
  | op, _, _, [left, right] => do
    return (← left) ++ " " ++ op.name ++ " " ++ (← right)
  | op, _, texts, _ => do
    return op.name ++ "(" ++ commas (← texts.mapM id) ++ ")"

def sortText (descending : Bool) (text : String) : String :=
  text ++ if descending then " DESC" else " ASC"

/-- A clause if it is there, between its keyword and its text. -/
def clause? (keyword : String) : Option (Option String) → Option (List String)
  | none => some []
  | some text => text.map fun t => [keyword ++ t]

/-- A clause of several entries, if it has any. -/
def clauses? (keyword : String) : List (Option String) → Option (List String)
  | [] => some []
  | texts => (texts.mapM id).map fun ts => [keyword ++ commas ts]

/-- The text of a select from the texts of its expressions. -/
def selectText? (s : SelectOf (Option String)) : Option String := do
  let keys := s.orderBy.map fun k => k.expression.map (sortText k.descending)
  let count (l : Literal) : Option String := some l.value.sql
  let parts := [["SELECT"], if s.distinct then ["DISTINCT"] else [],
    [commas (← s.items.mapM id)], ← clause? "FROM " s.source, ← clause? "WHERE " s.filter,
    ← clauses? "GROUP BY " s.groupBy, ← clause? "HAVING " s.having, ← clauses? "ORDER BY " keys,
    ← clause? "LIMIT " (s.limit.map count), ← clause? "OFFSET " (s.offset.map count)]
  return " ".intercalate parts.flatten

def joinText? (kind : JoinKind) (left right : Option String) (condition : Option (Option String)) :
    Option String := do
  if kind = .comma then return (← left) ++ ", " ++ (← right)
  let joined := (← left) ++ " " ++ kind.name ++ " JOIN " ++ (← right)
  return String.join (joined :: (← clause? " ON " condition))

mutual
def sql? : Node → Option String
  | .identifier i => some i.text
  | .literal l => some l.value.sql
  | .typeSpec t => some t.text
  | .list nodes => ((sqlEach nodes).mapM id).map fun ts => "(" ++ commas ts ++ ")"
  | .call c operands =>
    let texts := sqlEach operands
    callText? c texts (List.zipWith (fun n t => t.map n.bracket) operands texts)
  | .table t => some t.text
  | .join left kind right none => joinText? kind left.sql? right.sql? none
  | .join left kind right (some condition) =>
    joinText? kind left.sql? right.sql? (some condition.sql?)
  | .order ⟨expression, descending⟩ => expression.sql?.map (sortText descending)
  | .select ⟨distinct, items, source, filter, groupBy, having, orderBy, limit, offset⟩ =>
    selectText? ⟨distinct, sqlEach items, sqlOption source, sqlOption filter, sqlEach groupBy,
      sqlOption having, sqlKeys orderBy, limit, offset⟩

def sqlEach : List Node → List (Option String)
  | [] => []
  | n :: ns => n.sql? :: sqlEach ns

def sqlOption : Option Node → Option (Option String)
  | none => none
  | some n => some n.sql?

def sqlKeys : List (SortKey Node) → List (SortKey (Option String))
  | [] => []
  | ⟨expression, descending⟩ :: keys => ⟨expression.sql?, descending⟩ :: sqlKeys keys
end

theorem sqlEach_eq_map (ns : List Node) : sqlEach ns = ns.map sql? := by
  induction ns with
  | nil => rfl
  | cons n ns ih => simp [sqlEach, ih]

theorem sql?_call (c : Call) (ns : List Node) :
    (Node.call c ns).sql? =
      callText? c (ns.map sql?) (ns.map fun n => n.sql?.map n.bracket) := by
  rw [sql?, sqlEach_eq_map, List.zipWith_map_right, List.zipWith_self]

end GraphSelect.Node
