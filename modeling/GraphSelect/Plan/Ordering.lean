import GraphSelect.Plan.Item

/-!
The ordering of rows, and how many of them are kept.

An entry of the ordering may be the name of a select item or its place, counted from one.
-/

namespace GraphSelect

/-- The select item at a place counted from one. -/
def itemAt? (items : List Item) (v : Value) : Option Item :=
  (List.range items.length).findSome? fun i : Nat =>
    if v.quantity?.any (·.equal (.ofInt (i + 1))) then items[i]? else none

/-- The expression that an ordering orders by: a select item by name or by place, or its own. -/
def sortOperand (items : List Item) : Node → Outcome Operand
  | .identifier i =>
    match if i.isSimple then items.reverse.find? (·.asName = some i.simple) else none with
    | some found => .ok found.operand
    | none => .ok (.column i)
  | .literal l =>
    if l.type = .integer then
      match itemAt? items l.value with
      | some found => .ok found.operand
      | none => .fault (.unknownIdentifier l.value.sql)
    else .ok (.constant l)
  | n => Operand.ofNode n

def sortStep (s : Scope) (items : List Item) (key : SortKey Node) : Outcome Step := do
  let operand ← sortOperand items key.expression
  let value ← operand.value s
  return .byOrdered (orNull value) (if key.descending then .descending else .ascending)

def orderSteps (s : Scope) (items : List Item) (keys : List (SortKey Node)) : Outcome Steps :=
  if keys.isEmpty then .ok []
  else do return .order :: (← keys.mapM (sortStep s items))

/-- The number of rows asked for: the smaller of the two limits that are set. -/
def effectiveLimit (limit : Option Literal) (maxRows : Option Int) : Option Value :=
  let asked := (limit.map (·.value)).bind fun
    | .null => none
    | v => some v
  match asked, maxRows with
  | none, rows => rows.map .int
  | some v, none => some v
  | some v, some rows =>
    some (if v.quantity?.any ((Quantity.ofInt rows).less ·) then .int rows else v)

def limitSteps (limit : Option Literal) (maxRows : Option Int) : Steps :=
  ((effectiveLimit limit maxRows).map Step.limit).toList

end GraphSelect
