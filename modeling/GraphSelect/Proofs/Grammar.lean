import GraphSelect.Query.Parser
import Mathlib.Tactic.Common

/-!
The trees that texts denote.

The type of trees admits calls with any operands, and literals of any value with any type. The
parser builds far fewer: an operator has the operands it is written with, a literal has the type of
its value, and a name or a type stands only where the grammar has one. So what holds of every tree
of a text is proved by induction over the grammar.
-/

namespace GraphSelect

/-- The literals of texts: those that a token spells, and the negations of numbers. -/
inductive Literal.IsSpelled : Literal → Prop
  | exact (s : String) : IsSpelled (.ofExact s)
  | approximate (s : String) : IsSpelled (.ofApproximate s)
  | chars (s : String) : IsSpelled (.ofChars s)
  | bool (b : Bool) : IsSpelled (.ofBool b)
  | null : IsSpelled .null
  | negate {l : Literal} (h : IsSpelled l) (hn : l.type.isNumeric = true) : IsSpelled l.negate

/-- The operators that stand between two operands. -/
def Operator.isInfix : Operator → Bool
  | .comparison _ | .arithmetic _ | .and | .or | .like => true
  | _ => false

/-- The operators that stand before an operand. -/
def Operator.isPrefix : Operator → Bool
  | .not | .negate => true
  | _ => false

/-- The tests that stand behind an operand. -/
def Operator.isTest : Operator → Bool
  | .isNull | .isNotNull => true
  | _ => false

lemma Operator.ne_of_affix {op : Operator}
    (h : op.isInfix = true ∨ op.isPrefix = true ∨ op.isTest = true) :
    op ≠ .scalarQuery ∧ op ≠ .rename ∧ op ≠ .cast := by
  refine ⟨?_, ?_, ?_⟩ <;> rintro rfl <;> simp [isInfix, isPrefix, isTest] at h

lemma Operator.ofFunctionName_ne (name : String) : ofFunctionName name ≠ .scalarQuery ∧
    ofFunctionName name ≠ .rename ∧ ofFunctionName name ≠ .cast := by
  unfold ofFunctionName
  dsimp only
  split <;> simp

/-- The places of trees in a query. -/
inductive Category where
  | expression | item | tables | query
  deriving DecidableEq

/-- The trees of texts, with or without the types of their expressions. -/
inductive Node.IsWritten : Category → Node → Prop
  | column {i : Identifier} (h : i.names.length = 1 ∨ i.names.length = 2) :
      IsWritten .expression (.identifier i)
  | literal {l : Literal} (h : l.IsSpelled) : IsWritten .expression (.literal l)
  | infixed {c : Call} {x y : Node} (hc : c.operator.isInfix = true)
      (hx : IsWritten .expression x) (hy : IsWritten .expression y) :
      IsWritten .expression (.call c [x, y])
  | prefixed {c : Call} {x : Node} (hc : c.operator.isPrefix = true)
      (hx : IsWritten .expression x) : IsWritten .expression (.call c [x])
  | test {c : Call} {x : Node} (hc : c.operator.isTest = true) (hx : IsWritten .expression x) :
      IsWritten .expression (.call c [x])
  | function {c : Call} {xs : List Node} (name : String) (hc : c.operator = .ofFunctionName name)
      (hxs : ∀ x ∈ xs, IsWritten .expression x) : IsWritten .expression (.call c xs)
  | cast {c : Call} {x : Node} (hc : c.operator = .cast) (hx : IsWritten .expression x)
      (t : TypeSpec) : IsWritten .expression (.call c [x, .typeSpec t])
  | within {c : Call} {x : Node} {xs : List Node} (hc : c.operator = .within)
      (hx : IsWritten .expression x) (hxs : ∀ x ∈ xs, IsWritten .expression x) :
      IsWritten .expression (.call c [x, .list xs])
  | scalarQuery {c : Call} {q : Select} (hc : c.operator = .scalarQuery)
      (hq : IsWritten .query (.select q)) : IsWritten .expression (.call c [.select q])
  | item {x : Node} (hx : IsWritten .expression x) : IsWritten .item x
  | named {c : Call} {x : Node} (hc : c.operator = .rename) (hx : IsWritten .expression x)
      (name : String) : IsWritten .item (.call c [x, .identifier ⟨[name], none⟩])
  | table (t : TableRef) : IsWritten .tables (.table t)
  | join {x : Node} (hx : IsWritten .tables x) (kind : JoinKind) (t : TableRef) :
      IsWritten .tables (.join x kind (.table t) none)
  | joinOn {x y : Node} (hx : IsWritten .tables x) (kind : JoinKind) (t : TableRef)
      (hy : IsWritten .expression y) : IsWritten .tables (.join x kind (.table t) (some y))
  | query {q : Select} (items : ∀ x ∈ q.items, IsWritten .item x)
      (source : ∀ x ∈ q.source, IsWritten .tables x)
      (filter : ∀ x ∈ q.filter, IsWritten .expression x)
      (groupBy : ∀ x ∈ q.groupBy, IsWritten .expression x)
      (having : ∀ x ∈ q.having, IsWritten .expression x)
      (orderBy : ∀ k ∈ q.orderBy, IsWritten .expression k.expression) :
      IsWritten .query (.select q)

namespace Node

/-- The expression of a select item, without the name it has been given. -/
def expression : Node → Node
  | .call c [n, .identifier i] => if c.operator = .rename then n else .call c [n, .identifier i]
  | n => n

variable {n : Node}

lemma IsWritten.ne_rename {f : Call} {ns : List Node}
    (h : (Node.call f ns).IsWritten .expression) : f.operator ≠ .rename := by
  cases h with
  | infixed hc => exact (Operator.ne_of_affix (.inl hc)).2.1
  | prefixed hc => exact (Operator.ne_of_affix (.inr (.inl hc))).2.1
  | test hc => exact (Operator.ne_of_affix (.inr (.inr hc))).2.1
  | function name hc => exact hc ▸ (Operator.ofFunctionName_ne name).2.1
  | cast hc | within hc | scalarQuery hc => simp [hc]

lemma IsWritten.expression_eq (h : n.IsWritten .expression) : n.expression = n := by
  unfold expression
  split
  · exact if_neg h.ne_rename
  · rfl

/-- A select item is an expression, which may have been given a name. -/
lemma IsWritten.item_cases (h : n.IsWritten .item) :
    n.expression.IsWritten .expression ∧ (n = n.expression ∨
      ∃ f i, f.operator = .rename ∧ n = .call f [n.expression, .identifier i]) := by
  cases h with
  | item h => exact ⟨h.expression_eq.symm ▸ h, .inl h.expression_eq.symm⟩
  | @named f x hf hx name =>
    have hexpression : (Node.call f [x, .identifier ⟨[name], none⟩]).expression = x := if_pos hf
    rw [hexpression]
    exact ⟨hx, .inr ⟨f, _, hf, rfl⟩⟩

end Node

/-- A query that some text denotes. -/
def Select.IsWritten (q : Select) : Prop := Node.IsWritten .query (.select q)

namespace Select

variable {q : Select}

lemma isWritten_iff : q.IsWritten ↔ (∀ x ∈ q.items, x.IsWritten .item) ∧
    (∀ x ∈ q.source, x.IsWritten .tables) ∧ (∀ x ∈ q.filter, x.IsWritten .expression) ∧
    (∀ x ∈ q.groupBy, x.IsWritten .expression) ∧ (∀ x ∈ q.having, x.IsWritten .expression) ∧
    ∀ k ∈ q.orderBy, k.expression.IsWritten .expression := by
  constructor
  · rintro ⟨⟩
    exact ⟨‹_›, ‹_›, ‹_›, ‹_›, ‹_›, ‹_›⟩
  · rintro ⟨hitems, hsource, hfilter, hgroupBy, hhaving, horderBy⟩
    exact .query hitems hsource hfilter hgroupBy hhaving horderBy

end Select

end GraphSelect
