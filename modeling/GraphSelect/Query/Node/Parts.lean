import GraphSelect.Query.Node

/-!
The parts of an expression, each before its own parts. Sub-queries are not entered.
-/

namespace GraphSelect.Node

mutual
def parts : Node → List Node
  | .list nodes => .list nodes :: partsEach nodes
  | .call c operands =>
    .call c operands :: if c.operator = .scalarQuery then [] else partsEach operands
  | n => [n]

def partsEach : List Node → List Node
  | [] => []
  | n :: ns => parts n ++ partsEach ns
end

def isAggregate : Node → Bool
  | .call c _ => c.operator.isAggregate
  | _ => false

/-- Whether an aggregate occurs in an expression outside its sub-queries. -/
def containsAggregate (n : Node) : Bool :=
  n.parts.any isAggregate

theorem partsEach_eq_flatMap (ns : List Node) : partsEach ns = ns.flatMap parts := by
  induction ns with
  | nil => rfl
  | cons n ns ih => simp [partsEach, ih]

end GraphSelect.Node
