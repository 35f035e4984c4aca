import GraphSelect.Operand.Steps

/-!
The items of a select, each under a name of its own, and their projection.

A value that may be missing is read with another to take its place, so that no row is lost.
-/

namespace GraphSelect

/-- Reads a value, or a mark where there is none. -/
def orMark (value : Steps) : Steps :=
  [.coalesce value [.constant (.text nullMark)]]

/-- Reads a value, or null where there is none. -/
def orNull (value : Steps) : Steps :=
  [.coalesce value [.constant .null]]

/-- A select item: its name as a result column, its expression and its type. -/
structure Item where
  name : String
  operand : Operand
  type : TypeName
  asName : Option String
  deriving Inhabited

/-- A name that is not used yet: the given one, or else that with the first number behind it that
makes it new. -/
def freshName (used : List String) (name : String) : String :=
  if used.contains name then
    let numbered := (List.range (used.length + 1)).map fun n : Nat => name ++ Text.ofInt n
    (numbered.find? (!used.contains ·)).getD name
  else name

/-- A select item without the name it has been given, and that name. -/
def unnamed : Node → Outcome (Node × Option String)
  | .call c operands =>
    if c.operator = .rename then
      match operands with
      | [expression, .identifier i] => .ok (expression, some i.simple)
      | _ => .error .missingOperand
    else .ok (.call c operands, none)
  | n => .ok (n, none)

def item (s : Scope) (used : List String) (n : Node) : Outcome Item := do
  let (expression, asName) ← unnamed n
  let operand ← Operand.ofNode expression
  let wanted ← match asName.filter (· ≠ "") with
    | some a => .ok a
    | none => operand.name
  let name := freshName used wanted
  let type ← match expression.type? with
    | some t => .ok t
    | none => operand.type s
  return ⟨name, operand.rename name, type, asName⟩

/-- The select items, named one after the other. -/
def itemsFrom (s : Scope) (used : List String) : List Node → Outcome (List Item)
  | [] => .ok []
  | n :: ns => do
    let i ← item s used n
    return i :: (← itemsFrom s (used ++ [i.name]) ns)

/-- Projects the items. -/
def projectionSteps (s : Scope) (items : List Item) : Outcome Steps := do
  let values ← items.mapM (·.operand.value s)
  return .project (items.map (·.name)) :: values.map fun v => .by_ (orMark v)

end GraphSelect
