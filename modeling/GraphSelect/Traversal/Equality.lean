import GraphSelect.Traversal

/-!
When two traversals count as the same: their sources and step names are, and so are their arguments
up to the loose equality of constants.

What is not a number differs from every number and from all else that is not one, but a constant
never differs from itself. So it matters whether one constant is held in two places, or two that
look the same, and arguments are compared as they are held: with the number under which each
constant was made. Arguments, steps and children that are held in two places as a whole need no
number of their own. All of their constants are the same, and so they count as the same.
-/

namespace GraphSelect

/-- A constant as it was made. No two constants are made under one number. -/
structure HeldScalar where
  number : Nat
  value : Scalar
  deriving DecidableEq, Inhabited

/-- One and the same constant, or constants that are loosely equal. -/
def HeldScalar.same (c d : HeldScalar) : Bool :=
  c = d || c.value.same d.value

/-- An argument as it is held, over constants that were made one by one. -/
inductive Held where
  | scalar (c : HeldScalar)
  | list (as : List Held)
  | predicate (comparison : Comparison) (operand : Held)
  | order (o : SortOrder)
  | side (s : EntrySide)
  | traversal (t : TraversalOf Held)
  deriving Inhabited

abbrev HeldStep := StepOf Held

/-- A traversal as it is held. -/
abbrev Draft := TraversalOf Held

namespace Held

mutual
/-- The argument that is held, however its constants were made. -/
def argument : Held → Argument
  | .scalar c => .scalar c.value
  | .list as => .list (arguments as)
  | .predicate c a => .predicate c (argument a)
  | .order o => .order o
  | .side s => .side s
  | .traversal ⟨source, ss⟩ => .traversal ⟨source, steps ss⟩

def arguments : List Held → List Argument
  | [] => []
  | a :: as => argument a :: arguments as

def steps : List HeldStep → Steps
  | [] => []
  | ⟨name, as⟩ :: ss => ⟨name, arguments as⟩ :: steps ss
end

mutual
def same : Held → Held → Bool
  | .scalar c, .scalar d => c.same d
  | .list as, .list bs => sameEach as bs
  | .predicate c a, .predicate d b => c = d && same a b
  | .order o, .order p => o = p
  | .side s, .side t => s = t
  | .traversal ⟨source, ss⟩, .traversal ⟨source', ts⟩ => source = source' && sameSteps ss ts
  | _, _ => false

def sameEach : List Held → List Held → Bool
  | [], [] => true
  | a :: as, b :: bs => same a b && sameEach as bs
  | _, _ => false

def sameSteps : List HeldStep → List HeldStep → Bool
  | [], [] => true
  | ⟨name, as⟩ :: ss, ⟨name', bs⟩ :: ts => name = name' && sameEach as bs && sameSteps ss ts
  | _, _ => false
end

mutual
/-- What is held counts as the same as itself, whatever its constants. -/
theorem same_self (a : Held) : same a a = true := by
  cases a with
  | scalar c => simp [same, HeldScalar.same]
  | list as => rw [same, sameEach_self as]
  | predicate c a => simp [same, same_self a]
  | order | side => simp [same]
  | traversal t =>
    obtain ⟨source, ss⟩ := t
    simp [same, sameSteps_self ss]

theorem sameEach_self (as : List Held) : sameEach as as = true := by
  cases as with
  | nil => rfl
  | cons a as => rw [sameEach, same_self a, sameEach_self as]; rfl

theorem sameSteps_self (ss : List HeldStep) : sameSteps ss ss = true := by
  cases ss with
  | nil => rfl
  | cons s ss =>
    obtain ⟨name, as⟩ := s
    simp [sameSteps, sameEach_self as, sameSteps_self ss]
end

end Held

def HeldStep.same (s t : HeldStep) : Bool :=
  s.name = t.name && Held.sameEach s.arguments t.arguments

namespace Draft

def traversal (d : Draft) : Traversal :=
  ⟨d.source, Held.steps d.steps⟩

def same (d e : Draft) : Bool :=
  d.source = e.source && Held.sameSteps d.steps e.steps

end Draft

end GraphSelect
