import GraphSelect.Catalog
import GraphSelect.Query.Node
import GraphSelect.Traversal

/-!
What is known while a query is planned: which tables are bound to which places of the
traversal, and how its rows are grouped.

A row binds an element of the graph to every table. With one table the traversal stands at that
element; with several, each is reached by the label of its place. After grouping the traversal
stands at a group, and a column can be read only if it is a group key, or row by row inside an
aggregate.
-/

namespace GraphSelect

/-- Stands for `NULL` in the results of a traversal and in group keys, which cannot be missing. -/
def nullMark : String := "$%#NULL#%$"

/-- A table under the name it is bound to, which also labels its place in the traversal. -/
structure Binding where
  name : String
  table : Table
  deriving DecidableEq, Inhabited

structure Scope where
  catalog : Catalog
  /-- The tables bound so far, each under its own name, in the order of binding. -/
  bindings : List Binding
  /-- The group keys, once rows are grouped. Without keys all rows form one group. -/
  grouping : Option (List String)
  /-- Whether the rows of a group are read one by one, for an aggregate. -/
  inAggregate : Bool
  deriving Inhabited

namespace Scope

def initial (c : Catalog) : Scope := ⟨c, [], none, false⟩

def binding? (s : Scope) (name : String) : Option Binding :=
  s.bindings.find? (·.name = name)

def binding (s : Scope) (name : String) : Outcome Binding :=
  match s.binding? name with
  | some b => .ok b
  | none => .fault (.unknownIdentifier name)

def bind (s : Scope) (name : String) (table : Table) : Outcome Scope :=
  if (s.binding? name).isSome then .fault (.ambiguousIdentifier name)
  else .ok { s with bindings := s.bindings ++ [⟨name, table⟩] }

def isSingleTable (s : Scope) : Bool :=
  s.bindings.length = 1

def labels (s : Scope) : List String :=
  s.bindings.map (·.name)

/-- The label of the place where the traversal stands while tables are bound. -/
def currentLabel? (s : Scope) : Option String :=
  s.labels.getLast?

def isGrouped (s : Scope) : Bool :=
  s.grouping.isSome

def groupKeys (s : Scope) : List String :=
  s.grouping.getD []

/-- Whether expressions see a row. -/
def isRowContext (s : Scope) : Bool :=
  !s.isGrouped || s.inAggregate

/-- The table and column that an identifier denotes. -/
def owner (s : Scope) (i : Identifier) : Outcome (Binding × Column) :=
  let unknown : Outcome (Binding × Column) := .fault (.unknownIdentifier i.text)
  let columnOf (b : Binding) : Outcome (Binding × Column) :=
    match b.table.column? i.simple with
    | some c => .ok (b, c)
    | none => unknown
  if i.isStar then unknown
  else
    match i.names with
    | [name, _] =>
      match s.binding? name with
      | some b => columnOf b
      | none => unknown
    | [column] =>
      match s.bindings.filter fun b => (b.table.column? column).isSome with
      | [b] => columnOf b
      | _ => unknown
    | _ => unknown

/-- A column that has an owner is qualified by the name of a bound table, or belongs to one only. -/
theorem owner_cases {s : Scope} {i : Identifier} {b : Binding} {c : Column}
    (h : s.owner i = .ok (b, c)) :
    i.isStar = false ∧ b.table.column? i.simple = some c ∧
      ((∃ name column, i.names = [name, column] ∧ s.binding? name = some b) ∨
        ∃ column, i.names = [column] ∧
          (s.bindings.filter fun b => (b.table.column? column).isSome) = [b]) := by
  unfold owner at h
  dsimp only at h
  split at h
  · simp at h
  · next hstar =>
    refine ⟨by simpa using hstar, ?_⟩
    split at h
    · next name column hnames =>
      split at h
      · next b' hb =>
        split at h
        · next c' hc =>
          simp only [Except.ok.injEq, Prod.mk.injEq] at h
          obtain ⟨rfl, rfl⟩ := h
          exact ⟨hc, .inl ⟨name, column, hnames, hb⟩⟩
        · simp at h
      · simp at h
    · next column hnames =>
      split at h
      · next b' hb =>
        split at h
        · next c' hc =>
          simp only [Except.ok.injEq, Prod.mk.injEq] at h
          obtain ⟨rfl, rfl⟩ := h
          exact ⟨hc, .inr ⟨column, hnames, hb⟩⟩
        · simp at h
      · simp at h
    · simp at h

theorem mem_of_owner {s : Scope} {i : Identifier} {b : Binding} {c : Column}
    (h : s.owner i = .ok (b, c)) : b ∈ s.bindings := by
  obtain ⟨-, -, ⟨name, column, -, hb⟩ | ⟨column, -, hb⟩⟩ := owner_cases h
  · exact List.mem_of_find?_eq_some hb
  · have : b ∈ s.bindings.filter fun b => (b.table.column? column).isSome := by simp [hb]
    exact (List.mem_filter.1 this).1

def typeOf (s : Scope) (i : Identifier) : Outcome TypeName :=
  (s.owner i).map (·.2.type)

/-- Reads a property of a row. -/
def propertySteps (s : Scope) (label property : String) : Steps :=
  if s.isSingleTable then [.values property] else [.select [label], .values property]

/-- Filters rows by the element at a label. -/
def elementFilter (s : Scope) (label : String) (filter : Steps) : Steps :=
  if s.isSingleTable then filter else [.whereEmits (.select [label] :: filter)]

/-- The name of the group key that a property makes. -/
def groupKey (label property : String) : String :=
  label ++ "." ++ property

/-- Whether the current group has a key of a name. -/
def isGroupKey (s : Scope) (name : String) : Bool :=
  s.isGrouped && !s.inAggregate && s.groupKeys.contains name

/-- A row has no group keys. -/
theorem isGroupKey_of_isRowContext {s : Scope} (hs : s.isRowContext) (name : String) :
    s.isGroupKey name = false := by
  simp only [isRowContext, Bool.or_eq_true, Bool.not_eq_eq_eq_not, Bool.not_true] at hs
  rcases hs with h | h <;> simp [isGroupKey, h]

/-- Reads a group key. A key that is `NULL` gives nothing. -/
def groupKeySteps (name : String) : Steps :=
  [.selectSide .keys, .select [name], .satisfies .notEqual (.text nullMark)]

/-- Goes from a group to its rows. -/
def groupRowSteps (s : Scope) : Steps :=
  if s.groupKeys.isEmpty then [.unfold] else [.selectSide .values, .unfold]

/-- Reads a column of a row, or a group key. -/
def columnSteps (s : Scope) (i : Identifier) : Outcome Steps := do
  let (b, c) ← s.owner i
  if s.isRowContext then return s.propertySteps b.name c.property
  let key := groupKey b.name c.property
  if s.isGroupKey key then return groupKeySteps key
  .fault (.columnNotGrouped i.text)

def startGrouping (s : Scope) (keys : List String) : Scope :=
  { s with grouping := some keys }

/-- The scope inside an aggregate. -/
def aggregated (s : Scope) : Scope :=
  { s with inAggregate := true }

end Scope

end GraphSelect
