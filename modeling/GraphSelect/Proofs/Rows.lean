import GraphSelect.Proofs.Evaluation
import GraphSelect.Proofs.Execution.Reference

/-!
Rows: an element for every table that is bound. A traverser stands at a row where it reaches these
elements, and then it sees for a column what the row has for it.
-/

namespace GraphSelect

/-- Whether a column belongs to a table of a scope. -/
def Scope.Owns (s : Scope) (i : Identifier) : Prop := ∃ b c, s.owner i = .ok (b, c)

namespace Executor

variable {E D : Type} [DecidableEq E] (x : Executor E D) {s : Scope}

/-- A row is an element for every table, and a traverser stands at it where it reaches them. -/
def StandsAt (s : Scope) (row : String → E) (t : Traverser E D) : Prop :=
  ∀ b ∈ s.bindings, Reaches s t b.name (row b.name)

/-- What a row has for a column. -/
def columnAt (s : Scope) (row : String → E) (i : Identifier) : Option D :=
  match s.owner i with
  | .ok (b, c) => x.graph.property? (row b.name) c.property
  | .error _ => none

variable {x}

lemma StandsAt.sees {row : String → E} {t : Traverser E D} (ht : StandsAt s row t)
    (hs : s.isRowContext) {i : Identifier} (hi : s.Owns i) : x.Sees s t i (x.columnAt s row i) := by
  obtain ⟨b, c, ho⟩ := hi
  have := Sees.row (x := x) hs ho (ht b (Scope.mem_of_owner ho))
  simpa [columnAt, ho] using this

/-- At a row the filter of an operand keeps what its data are true of. -/
lemma StandsAt.filter {row : String → E} {t : Traverser E D} (ht : StandsAt s row t)
    (hs : s.isRowContext) {col : Identifier → Prop} {txt : String → Prop} {o : Operand}
    (ho : o.Evaluable (Operand.type s) col txt) (hcol : ∀ i, col i → s.Owns i) :
    ∃ w, o.filter s = .ok w ∧ x.run w t =
      t.keptIf ((o.data? x.toAlgebra (Operand.type s) (x.columnAt s row)).any x.isTrue) := by
  obtain ⟨v, hv⟩ := (ho.understood (fun i hi => ht.sees hs (hcol i hi))
    (fun k _ => Scope.isGroupKey_of_isRowContext hs k) fun _ => rfl).evaluates
  exact hv.filter

omit [DecidableEq E] in
lemma lookup_bindings (row : String → E) {bs : List Binding} {b : Binding} (hb : b ∈ bs) :
    (bs.map fun b => (b.name, (Place.element (row b.name) : Place E D))).lookup b.name =
      some (.element (row b.name)) := by
  have := List.lookup_graph (fun name => (Place.element (row name) : Place E D))
    (List.mem_map_of_mem (f := Binding.name) hb)
  rwa [List.map_map] at this

omit [DecidableEq E] in
/-- At every row a traverser can stand. -/
lemma exists_standsAt (s : Scope) (row : String → E) : ∃ t : Traverser E D, StandsAt s row t := by
  refine ⟨⟨.element (row (s.labels.headD "")),
    s.bindings.map fun b => (b.name, .element (row b.name))⟩, fun b hb => ?_⟩
  unfold Reaches
  split
  · next hs =>
    obtain ⟨c, hc⟩ := List.length_eq_one_iff.1 (by simpa [Scope.isSingleTable] using hs)
    simp_all [Scope.labels]
  · exact lookup_bindings row hb

end Executor

namespace People

def table : Table :=
  ⟨"person", "person", [⟨"name", "name", .varchar⟩, ⟨"age", "age", .integer⟩], .vertex⟩

def catalog : Catalog := ⟨[table], [⟨"knows", "person", "person", none, none⟩]⟩

/-- Two people are bound. -/
def scope : Scope := ⟨catalog, [⟨"p", table⟩, ⟨"q", table⟩], none, false⟩

def executor : Executor Nat Value := Reference.executor Value.algebra .people

def column (table name : String) : Node := .identifier ⟨[table, name], none⟩

def number (n : Int) : Node := .literal ⟨.int n, .integer⟩

def row (p q : Nat) (name : String) : Nat := if name = "p" then p else q

def traverser (p q : Nat) : Traverser Nat Value :=
  ⟨.element q, [("q", .element q), ("p", .element p)]⟩

lemma standsAt (p q : Nat) : Executor.StandsAt scope (row p q) (traverser p q) := by
  intro b hb
  simp only [scope, List.mem_cons, List.not_mem_nil, or_false] at hb
  rcases hb with rfl | rfl <;> rfl

lemma owns_column {table name : String} (ht : table = "p" ∨ table = "q")
    (hn : name = "name" ∨ name = "age") : scope.Owns ⟨[table, name], none⟩ := by
  rcases ht with rfl | rfl <;> rcases hn with rfl | rfl <;> exact ⟨_, _, rfl⟩

end People

end GraphSelect
