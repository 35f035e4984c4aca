import GraphSelect.Catalog
import GraphSelect.Query.Node.Printer
import GraphSelect.Query.Typing

/-!
Resolving a query against a catalog: every column is qualified by the table it belongs to and
spelled as in the catalog, every star stands for the columns it means, and every expression has
its type.

A sub-query sees its own tables only. The names of select items can be used in `ORDER BY`, where a
whole number denotes a select item by its place.
-/

namespace GraphSelect

/-- The tables that columns can belong to, by the names they are qualified with, in the order of
the `FROM` clause. -/
abbrev Tables := List (String × Table)

namespace Tables

def add (ts : Tables) (name : String) (t : Table) : Outcome Tables :=
  if (ts.lookup name).isSome then .fault (.ambiguousIdentifier name)
  else .ok (ts ++ [(name, t)])

/-- The tables that have a column, with the column. -/
def owners (ts : Tables) (column : String) : List (String × Column) :=
  ts.filterMap fun (name, t) => (t.column? column).map (name, ·)

/-- The table and column that an identifier denotes. -/
def owner (ts : Tables) (i : Identifier) : Outcome (String × Column) :=
  match i.names with
  | [column] =>
    match ts.owners column with
    | [found] => .ok found
    | [] => .fault (.unknownIdentifier i.text)
    | _ => .fault (.ambiguousIdentifier i.text)
  | [name, column] =>
    match (ts.lookup name).bind (·.column? column) with
    | some found => .ok (name, found)
    | none => .fault (.unknownIdentifier i.text)
  | _ => .fault (.unknownIdentifier i.text)

def identifier (ts : Tables) (i : Identifier) : Outcome Identifier :=
  if i.isStar then .ok { i with type := some .any }
  else (ts.owner i).map fun (name, column) => ⟨[name, column.name], some column.type⟩

/-- The columns of one table. -/
def columnsOf (name : String) (t : Table) : List Identifier :=
  t.columns.map fun c => ⟨[name, c.name], some c.type⟩

/-- The columns that a star stands for: those of the table before it, or of all tables. -/
def columns (ts : Tables) (star : Identifier) : Outcome (List Identifier) :=
  if star.isSimple then
    if ts.isEmpty then .fault (.unknownIdentifier star.text)
    else .ok (ts.flatMap fun (name, t) => columnsOf name t)
  else
    let name := star.names.headD ""
    match ts.lookup name with
    | some t => .ok (columnsOf name t)
    | none => .fault (.unknownIdentifier star.text)

end Tables

namespace Node

/-- The name of a select item, if it has been given one. -/
def asName? : Node → Outcome (Option String)
  | .call c operands =>
    if c.operator = .rename then
      match operands with
      | _ :: .identifier i :: _ => .ok (some i.simple)
      | _ => .error .missingOperand
    else .ok none
  | _ => .ok none

end Node

/-- The select items by their names, the last first. -/
def namedItems : List Node → Outcome (List (String × Node))
  | [] => .ok []
  | n :: ns => do
    let name ← n.asName?
    let rest ← namedItems ns
    return rest ++ (name.map (·, n)).toList

/-- Checks that every star among select items stands for some table's columns. -/
def checkStars (ts : Tables) (items : List Node) : Outcome Unit :=
  items.forM fun
    | .identifier i => if i.isStar then (ts.columns i).map fun _ => () else .ok ()
    | _ => .ok ()

/-- Whether a number denotes one of `count` places. -/
def isPlace (v : Value) (count : Nat) : Bool :=
  v.quantity?.any fun q => !q.less (.ofInt 1) && !(Quantity.ofInt count).less q

mutual
def resolve (c : Catalog) (ts : Tables) : Node → Outcome Node
  | .identifier i => (ts.identifier i).map .identifier
  | .list nodes => (resolveEach c ts nodes).map .list
  | .call f operands =>
    match f.operator, operands with
    | .scalarQuery, .select s :: rest => do
      let s ← resolveSelect c s
      let type := (s.items.head?.map Node.type).getD .any
      return .call { f with type := some type } (.select s :: rest)
    | .scalarQuery, n :: _ => .fault (.unsupportedOperandType n.kindName)
    | .scalarQuery, [] => .error .missingOperand
    | .rename, n :: rest => do
      let n ← resolve c ts n
      return .call { f with type := some n.type } (n :: rest)
    | .rename, [] => .error .missingOperand
    | op, operands => do
      let operands ← resolveEach c ts operands
      return .call { f with type := some (op.resultType (operands.map Node.type)) } operands
  | n => .ok n

def resolveEach (c : Catalog) (ts : Tables) : List Node → Outcome (List Node)
  | [] => .ok []
  | n :: ns => do return (← resolve c ts n) :: (← resolveEach c ts ns)

def resolveOption (c : Catalog) (ts : Tables) : Option Node → Outcome (Option Node)
  | none => .ok none
  | some n => (resolve c ts n).map some

/-- Resolves the tables of a `FROM` clause, from left to right, and the conditions of its joins. A
condition sees the tables read so far. -/
def resolveSource (c : Catalog) (ts : Tables) : Node → Outcome (Tables × Node)
  | .table t => do
    let table ← c.table t.name
    return (← ts.add t.binding table, .table t)
  | .join left kind right condition => do
    let (ts, left) ← resolveSource c ts left
    let (ts, right) ← resolveSource c ts right
    return (ts, .join left kind right (← resolveOption c ts condition))
  | n => .fault (.unsupportedOperandType n.kindName)

def resolveItems (c : Catalog) (ts : Tables) : List Node → Outcome (List Node)
  | [] => .ok []
  | .identifier i :: ns => do
    let found ←
      if i.isStar then (← ts.columns i).mapM ts.identifier else (ts.identifier i).map ([·])
    return found.map .identifier ++ (← resolveItems c ts ns)
  | n :: ns => do return (← resolve c ts n) :: (← resolveItems c ts ns)

def resolveKeys (c : Catalog) (ts : Tables) (named : List (String × Node)) (count : Nat) :
    List (SortKey Node) → Outcome (List (SortKey Node))
  | [] => .ok []
  | ⟨.identifier i, descending⟩ :: keys => do
    let found ← match if i.isSimple then named.lookup i.simple else none with
      | some item => .ok { i with type := some item.type }
      | none => ts.identifier i
    return ⟨.identifier found, descending⟩ :: (← resolveKeys c ts named count keys)
  | ⟨.literal l, descending⟩ :: keys =>
    if l.type = .integer ∧ isPlace l.value count = false then
      .fault (.unknownIdentifier l.value.sql)
    else do return ⟨.literal l, descending⟩ :: (← resolveKeys c ts named count keys)
  | ⟨n, descending⟩ :: keys => do
    let n ← resolve c ts n
    return ⟨n, descending⟩ :: (← resolveKeys c ts named count keys)

/-- Resolves a select. The stars among its items are looked up before any item is resolved. -/
def resolveSelect (c : Catalog) : Select → Outcome Select
  | ⟨distinct, items, source, filter, groupBy, having, orderBy, limit, offset⟩ => do
    let (ts, source) ← match source with
      | none => .ok ([], none)
      | some n => (resolveSource c [] n).map fun (ts, n) => (ts, some n)
    checkStars ts items
    let items ← resolveItems c ts items
    let filter ← resolveOption c ts filter
    let groupBy ← resolveEach c ts groupBy
    let having ← resolveOption c ts having
    let named ← namedItems items
    let orderBy ← resolveKeys c ts named items.length orderBy
    return ⟨distinct, items, source, filter, groupBy, having, orderBy, limit, offset⟩
end

/-- The query with its names resolved and its expressions typed. -/
def Select.resolve (c : Catalog) (s : Select) : Outcome Select :=
  resolveSelect c s

end GraphSelect
