import GraphSelect.Proofs.Failures

/-!
Failures over names.

Steps are planned for expressions whose columns have been looked up before, so a plan should never
fail over a name. The exception is a stray star, which is left as it is when names are looked up and
is not known when steps are planned.
-/

namespace GraphSelect

/-- The failures of work that knows its names: none is over a name, except with a stray column, which
is then not known. -/
def FailureClass.naming (stray : Prop) : FailureClass where
  Has e := ∀ f, e = .fault f → f.kind.isNaming = true → f.kind = .unknownIdentifier ∧ stray
  plain := by
    rintro f h _ ⟨⟩ hnaming
    simp [Fault.isPlain, hnaming] at h
  within := by
    rintro (f | _) clause h g hg hnaming
    · cases hg
      exact h f rfl hnaming
    · cases hg

namespace Outcome

variable {α : Type} {stray : Prop}

/-- Work that fails over a name only if it has a stray column, which it then does not know. -/
abbrev KnowsNames (stray : Prop) (x : Outcome α) : Prop := x.FailsIn (.naming stray)

lemma knowsNames_unknown {name : String} (h : stray) :
    KnowsNames stray (fault (.unknownIdentifier name) : Outcome α) :=
  failsIn_error (by
    rintro _ ⟨⟩ -
    exact ⟨rfl, h⟩)

/-- A text that is missing is no name. -/
lemma knowsNames_textOf (n : Node) : (Operand.textOf n).KnowsNames stray := by
  unfold Operand.textOf
  split
  · exact failsIn_ok _
  · exact failsIn_error nofun

lemma knowsNames_unnamed (n : Node) : (unnamed n).KnowsNames stray := by
  unfold unnamed
  repeat' split
  all_goals first | exact failsIn_ok _ | exact failsIn_error nofun

end Outcome

variable {s : Scope} {stray : Prop}

lemma Scope.Knows.of_owner {i : Identifier} {b : Binding} {col : Column} {K : FailureClass}
    (h : s.owner i = .ok (b, col)) : s.Knows K i := by
  unfold Knows
  rw [h]
  exact Outcome.failsIn_ok _

/-- A column that is not found is not known: this is the only way in which it can fail. -/
lemma Scope.Knows.of_stray (i : Identifier) (h : stray) : s.Knows (.naming stray) i := by
  unfold Knows owner
  dsimp only
  repeat' split
  all_goals first | exact Outcome.knowsNames_unknown h | exact Outcome.failsIn_ok _

end GraphSelect
