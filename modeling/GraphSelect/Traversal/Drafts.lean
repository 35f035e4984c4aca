import GraphSelect.Traversal.Equality

/-!
Traversals under construction, each under a name.

The constants of a step are made when it is taken. Since drafts are copied and joined, a step may
then stand in several of them, over the same constants.
-/

namespace GraphSelect

/-- Makes a constant under the next number. -/
def HeldScalar.make (c : Scalar) : StateM Nat HeldScalar := fun next =>
  (⟨next, c⟩, next + 1)

namespace Held

mutual
/-- Makes the constants of an argument. -/
def make : Argument → StateM Nat Held
  | .scalar c => return .scalar (← HeldScalar.make c)
  | .list as => return .list (← makeEach as)
  | .predicate c a => return .predicate c (← make a)
  | .order o => return .order o
  | .side s => return .side s
  | .traversal ⟨source, steps⟩ => return .traversal ⟨source, ← makeSteps steps⟩

def makeEach : List Argument → StateM Nat (List Held)
  | [] => return []
  | a :: as => return (← make a) :: (← makeEach as)

def makeSteps : List (StepOf Argument) → StateM Nat (List HeldStep)
  | [] => return []
  | ⟨name, as⟩ :: ss => return ⟨name, ← makeEach as⟩ :: (← makeSteps ss)
end

end Held

/-- Goes on with steps that are held already. -/
def Draft.append (d : Draft) (ss : List HeldStep) : Draft :=
  { d with steps := d.steps ++ ss }

structure Drafts where
  /-- The drafts by their names, the last named first. -/
  named : List (String × Draft)
  /-- The number of the next constant. -/
  next : Nat
  deriving Inhabited

namespace Drafts

def empty : Drafts := ⟨[], 0⟩

def draft? (ds : Drafts) (name : String) : Option Draft :=
  ds.named.lookup name

/-- Gives a name to a draft. What had the name before has it no longer. -/
def put (ds : Drafts) (name : String) (d : Draft) : Drafts :=
  { ds with named := (name, d) :: ds.named }

def start (ds : Drafts) (name : String) (source : Option String) : Drafts :=
  ds.put name ⟨source, []⟩

/-- Takes a step in a draft. -/
def take? (ds : Drafts) (name : String) (s : Step) : Option Drafts :=
  (ds.draft? name).map fun d =>
    let (ss, next) := Held.makeSteps [s] ds.next
    { ds.put name (d.append ss) with next }

def copy? (ds : Drafts) (name other : String) : Option Drafts :=
  (ds.draft? other).map (ds.put name)

/-- Goes on in a draft with all steps of another. -/
def extend? (ds : Drafts) (name other : String) : Option Drafts := do
  let d ← ds.draft? name
  let e ← ds.draft? other
  return ds.put name (d.append e.steps)

end Drafts

end GraphSelect
