import GraphSelect.Traversal

/-!
The Gremlin text of a traversal.
-/

namespace GraphSelect

open Text

def Comparison.predicateName : Comparison → String
  | .equal => "eq"
  | .notEqual => "neq"
  | .less => "lt"
  | .greater => "gt"
  | .lessOrEqual => "lte"
  | .greaterOrEqual => "gte"

def SortOrder.name : SortOrder → String
  | .ascending => "asc"
  | .descending => "desc"

def EntrySide.name : EntrySide → String
  | .keys => "keys"
  | .values => "values"

/-- The text of a traversal from the texts of its steps. A child that takes no step is written as
the step that stays. -/
def traversalText (source : Option String) (steps : List String) : String :=
  match source, steps with
  | none, [] => "__.identity()"
  | source, steps => String.join (source.getD "__" :: steps.map ("." ++ ·))

def stepText (name : String) (arguments : List String) : String :=
  name ++ "(" ++ ", ".intercalate arguments ++ ")"

/-- The text by which a traversal is told from other things. -/
def displayText (rendered : String) : String :=
  "Traversal(" ++ rendered ++ ")"

/-- The text of one of the choices of a kind by which it is told from other things. -/
def choiceText (kind name : String) : String :=
  "<" ++ kind ++ "." ++ name ++ ": " ++ displayed name ++ ">"

namespace Argument

mutual
/-- The text of an argument in a traversal, where a list is a text. -/
def render : Argument → String
  | .scalar c => c.rendered
  | .list as => escaped (bracketed (innerEach as))
  | .predicate c operand => c.predicateName ++ "(" ++ render operand ++ ")"
  | .order o => o.name
  | .side s => s.name
  | .traversal ⟨source, steps⟩ => traversalText source (renderSteps steps)

def renderEach : List Argument → List String
  | [] => []
  | a :: as => a.render :: renderEach as

def renderSteps : List (StepOf Argument) → List String
  | [] => []
  | ⟨name, arguments⟩ :: steps => stepText name (renderEach arguments) :: renderSteps steps

/-- The text of an argument inside a list. -/
def inner : Argument → String
  | .scalar c => c.inner
  | .list as => bracketed (innerEach as)
  | .predicate c operand =>
    "P(operator=" ++ displayed c.predicateName ++ ", value=" ++ inner operand ++ ")"
  | .order o => choiceText "Order" o.name
  | .side s => choiceText "Column" s.name
  | .traversal ⟨source, steps⟩ => displayText (traversalText source (renderSteps steps))

def innerEach : List Argument → List String
  | [] => []
  | a :: as => inner a :: innerEach as
end

theorem renderEach_eq_map (as : List Argument) : renderEach as = as.map render := by
  induction as with
  | nil => rfl
  | cons a as ih => simp [renderEach, ih]

end Argument

def Step.render (s : Step) : String :=
  stepText s.name (s.arguments.map Argument.render)

def Traversal.render (t : Traversal) : String :=
  traversalText t.source (t.steps.map Step.render)

def Traversal.display (t : Traversal) : String :=
  displayText t.render

theorem Argument.renderSteps_eq_map (steps : Steps) :
    renderSteps steps = steps.map Step.render := by
  induction steps with
  | nil => rfl
  | cons s steps ih => simp [renderSteps, Step.render, renderEach_eq_map, ih]

theorem Argument.render_traversal (t : Traversal) : (Argument.traversal t).render = t.render := by
  simp [render, Traversal.render, renderSteps_eq_map]

end GraphSelect
