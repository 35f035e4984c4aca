import GraphSelect.Proofs.NumberTexts
import GraphSelect.Proofs.UniqueReading
import GraphSelect.Proofs.WellScoped

/-!
The texts of a traversal as literals.

A literal stands between single quotes. It may have any characters but quotes, backslashes and the
ends of lines, and behind a backslash a character that stands for another one. Since a text is
written with a backslash before its quotes and backslashes, none of these ends the literal or is
read as something else, and the literal is read as the text. But the ends of its lines are written
as they are, and no literal goes on in the next line. So the text of a traversal is read as its
steps are meant, each of its texts as one literal, exactly if none of them has more than one line.
-/

namespace GraphSelect

open Text

/-! ### Literals -/

/-- The characters that end a line. -/
def isLineEnd (c : Char) : Bool :=
  c = '\n' || c = '\r'

/-- The text has no more than one line. -/
def IsOneLine (cs : List Char) : Prop :=
  ∀ c ∈ cs, isLineEnd c = false

instance (cs : List Char) : Decidable (IsOneLine cs) :=
  inferInstanceAs (Decidable (∀ c ∈ cs, isLineEnd c = false))

@[simp] lemma isOneLine_nil : IsOneLine [] := by simp [IsOneLine]

@[simp] lemma isOneLine_cons {c : Char} {cs : List Char} :
    IsOneLine (c :: cs) ↔ isLineEnd c = false ∧ IsOneLine cs :=
  List.forall_mem_cons

/-- The characters that may stand behind a backslash, with what they stand for there. -/
def escapes : List (Char × Char) :=
  [('b', '\x08'), ('t', '\t'), ('n', '\n'), ('f', '\x0c'), ('r', '\r'), ('s', ' '), ('\\', '\\'),
    ('\'', '\''), ('"', '"'), ('$', '$')]

/-- Reads a literal from behind its first quote on, and gives what it stands for and what stands
behind it. -/
def readLiteral? : List Char → Option (List Char × List Char)
  | [] => none
  | '\'' :: cs => some ([], cs)
  | '\\' :: c :: cs =>
    (escapes.lookup c).bind fun d => (readLiteral? cs).map (Prod.map (d :: ·) id)
  | c :: cs =>
    if c = '\\' ∨ isLineEnd c = true then none else (readLiteral? cs).map (Prod.map (c :: ·) id)

/-- Reads a text that is one literal. -/
def literal? (s : String) : Option String :=
  match s.toList with
  | '\'' :: cs =>
    match readLiteral? cs with
    | some (ds, []) => some (String.ofList ds)
    | _ => none
  | _ => none

/-- An escaped text is read up to its quote if it has one line, and not at all otherwise. -/
lemma readLiteral?_escaped (cs r : List Char) :
    readLiteral? (cs.flatMap escapeChar ++ '\'' :: r) =
      if IsOneLine cs then some (cs, r) else none := by
  induction cs with
  | nil => simp [readLiteral?]
  | cons c cs ih =>
    have hstep : readLiteral? ((c :: cs).flatMap escapeChar ++ '\'' :: r) =
        if isLineEnd c = true then none
        else (readLiteral? (cs.flatMap escapeChar ++ '\'' :: r)).map (Prod.map (c :: ·) id) := by
      by_cases hb : c = '\\'
      · subst hb
        rfl
      · by_cases hq : c = '\''
        · subst hq
          rfl
        · simp [escapeChar, readLiteral?, hb]
    rw [hstep, ih]
    by_cases hc : isLineEnd c = true <;> by_cases hcs : IsOneLine cs <;> simp [hc, hcs]

lemma literal?_escaped (s : String) :
    literal? (escaped s) = if IsOneLine s.toList then some s else none := by
  have hread := readLiteral?_escaped s.toList []
  unfold literal? escaped
  rw [String.toList_ofList, List.cons_append]
  simp only [hread]
  by_cases hs : IsOneLine s.toList <;> simp [hs]

/-! ### Lexemes -/

/-- The characters that stand for themselves outside of literals. -/
def isSign (c : Char) : Bool :=
  isNumberChar c || ['_', '(', ')', ',', ' '].contains c

inductive Lexeme where
  | sign (c : Char)
  | literal (s : String)
  deriving DecidableEq

namespace Lexeme

def chars : Lexeme → List Char
  | .sign c => [c]
  | .literal s => (escaped s).toList

def isProper : Lexeme → Bool
  | .sign c => isSign c
  | .literal _ => true

end Lexeme

/-- A text is read as lexemes from left to right. -/
inductive Lexes : List Char → List Lexeme → Prop
  | nil : Lexes [] []
  | sign {c : Char} {cs : List Char} {ls : List Lexeme} (hc : isSign c = true) (h : Lexes cs ls) :
      Lexes (c :: cs) (.sign c :: ls)
  | literal {cs ds rest : List Char} {ls : List Lexeme} (hread : readLiteral? cs = some (ds, rest))
      (h : Lexes rest ls) : Lexes ('\'' :: cs) (.literal (String.ofList ds) :: ls)

/-- What is written lexeme by lexeme is read so, and not otherwise, if no literal is too long. -/
lemma lexes_flatMap {ps ls : List Lexeme} (hps : ∀ p ∈ ps, p.isProper = true) :
    Lexes (ps.flatMap Lexeme.chars) ls ↔ ls = ps ∧ ∀ s, .literal s ∈ ps → IsOneLine s.toList := by
  induction ps generalizing ls with
  | nil =>
    constructor
    · intro h
      cases h
      simp
    · rintro ⟨rfl, -⟩
      exact .nil
  | cons p ps ih =>
    obtain ⟨hp, hps⟩ := List.forall_mem_cons.1 hps
    replace ih {ls : List Lexeme} := @ih ls hps
    cases p with
    | sign c =>
      constructor
      · intro h
        rw [List.flatMap_cons] at h
        cases h with
        | sign _ h =>
          obtain ⟨rfl, hlines⟩ := ih.1 h
          exact ⟨rfl, by simpa using hlines⟩
        | literal => exact absurd hp (by decide)
      · rintro ⟨rfl, hlines⟩
        exact .sign hp (ih.2 ⟨rfl, fun s hs => hlines s (List.mem_cons_of_mem _ hs)⟩)
    | literal s =>
      have hchars : (Lexeme.literal s :: ps).flatMap Lexeme.chars =
          '\'' :: (s.toList.flatMap escapeChar ++ '\'' :: ps.flatMap Lexeme.chars) := by
        simp [Lexeme.chars, escaped]
      have hread := readLiteral?_escaped s.toList (ps.flatMap Lexeme.chars)
      rw [hchars]
      constructor
      · intro h
        cases h with
        | sign hc => exact absurd hc (by decide)
        | literal hfound h =>
          rw [hread] at hfound
          split at hfound
          · next hs =>
            cases hfound
            obtain ⟨rfl, hlines⟩ := ih.1 h
            refine ⟨by rw [String.ofList_toList], fun t ht => ?_⟩
            rcases List.mem_cons.1 ht with ht | ht
            · cases ht
              exact hs
            · exact hlines t ht
          · cases hfound
      · rintro ⟨rfl, hlines⟩
        rw [if_pos (hlines s List.mem_cons_self)] at hread
        have hrest := ih.2 ⟨rfl, fun t ht => hlines t (List.mem_cons_of_mem _ ht)⟩
        simpa using Lexes.literal hread hrest

/-! ### The lexemes of traversals -/

def signs (s : String) : List Lexeme :=
  s.toList.map .sign

/-- A traversal begins with its source. A child that takes no step stays where it is. -/
def startLexemes (source : Option String) (steps : Steps) : List Lexeme :=
  match source, steps with
  | none, [] => signs "__.identity()"
  | source, _ => signs (source.getD "__")

namespace Argument

mutual
/-- An argument is a literal if it is a text, and is otherwise written with signs. -/
def lexemes : Argument → List Lexeme
  | .scalar (.text s) => [.literal s]
  | .scalar (.chars s) => [.literal (singleQuoted s)]
  | .scalar c => signs c.rendered
  | .list as => [.literal (bracketed (innerEach as))]
  | .predicate c operand => signs c.predicateName ++ .sign '(' :: (lexemes operand ++ [.sign ')'])
  | .order o => signs o.name
  | .side s => signs s.name
  | .traversal ⟨source, steps⟩ => startLexemes source steps ++ lexemesOfSteps steps

/-- The arguments of a step, with what closes them. -/
def lexemesOfEach : List Argument → List Lexeme
  | [] => [.sign ')']
  | [a] => lexemes a ++ [.sign ')']
  | a :: as => lexemes a ++ .sign ',' :: .sign ' ' :: lexemesOfEach as

def lexemesOfSteps : List (StepOf Argument) → List Lexeme
  | [] => []
  | ⟨name, arguments⟩ :: steps =>
    .sign '.' :: (signs name ++ .sign '(' :: (lexemesOfEach arguments ++ lexemesOfSteps steps))
end

end Argument

def Traversal.lexemes (t : Traversal) : List Lexeme :=
  (Argument.traversal t).lexemes

lemma flatMap_signs (s : String) : (signs s).flatMap Lexeme.chars = s.toList := by
  simp [signs, List.flatMap_map, Lexeme.chars]

namespace Argument

mutual
/-- The text of an argument is that of its lexemes. -/
theorem toList_render (a : Argument) : a.render.toList = a.lexemes.flatMap Lexeme.chars := by
  match a with
  | .scalar (.text s) | .scalar (.chars s) =>
    simp [render, lexemes, Lexeme.chars, Scalar.rendered, Scalar.plain]
  | .scalar .null | .scalar (.bool b) | .scalar (.int n) | .scalar (.decimal d)
  | .scalar (.double x) | .order o | .side s => simp [render, lexemes, flatMap_signs]
  | .list as => simp [render, lexemes, Lexeme.chars]
  | .predicate c operand =>
    simp [render, lexemes, flatMap_signs, toList_render operand, Lexeme.chars]
  | .traversal ⟨source, steps⟩ =>
    have hsteps := toList_renderSteps steps
    by_cases h : source.isSome ∨ steps ≠ []
    · have hstart : startLexemes source steps = signs (source.getD "__") := by
        cases source <;> cases steps <;> simp_all [startLexemes]
      rw [render, renderSteps_eq_map, toList_traversalText source steps h, hsteps, lexemes, hstart,
        List.flatMap_append, flatMap_signs]
    · obtain ⟨rfl, rfl⟩ : source = none ∧ steps = [] := by simpa using h
      decide

theorem closed_render (as : List Argument) :
    closed (as.map (·.render.toList)) = (lexemesOfEach as).flatMap Lexeme.chars := by
  match as with
  | [] => rfl
  | [a] => simp [closed, lexemesOfEach, toList_render a, Lexeme.chars]
  | a :: b :: as =>
    rw [List.map_cons, closed_cons, closed_render (b :: as), toList_render a]
    simp [lexemesOfEach, Lexeme.chars]

theorem toList_renderSteps (steps : List (StepOf Argument)) :
    Steps.chars steps = (lexemesOfSteps steps).flatMap Lexeme.chars := by
  match steps with
  | [] => rfl
  | ⟨name, arguments⟩ :: steps =>
    have hsteps := toList_renderSteps steps
    rw [Steps.chars] at hsteps ⊢
    simp [lexemesOfSteps, hsteps, closed_render arguments, flatMap_signs, Lexeme.chars]
end

end Argument

/-! ### Steps that are written with signs and literals -/

/-- The names, numbers and brackets of an argument are signs. -/
def Argument.IsProper (a : Argument) : Prop :=
  ∀ l ∈ a.lexemes, l.isProper = true

def Steps.AreProper (v : Steps) : Prop :=
  ∀ l ∈ Argument.lexemesOfSteps v, l.isProper = true

lemma isProper_signs {s : String} (h : ∀ c ∈ s.toList, isSign c = true) :
    ∀ l ∈ signs s, l.isProper = true :=
  List.forall_mem_map.2 h

lemma isSign_of_isNumberChar {c : Char} (h : isNumberChar c = true) : isSign c = true := by
  simp [isSign, h]

namespace Argument

@[simp] lemma isProper_scalar (c : Scalar) : (scalar c).IsProper := by
  cases c with
  | null => exact isProper_signs (s := "null") (by decide)
  | bool b => cases b <;> exact isProper_signs (by decide)
  | int n => exact isProper_signs fun c hc => isSign_of_isNumberChar (isNumberChar_ofInt n c hc)
  | decimal d =>
    refine isProper_signs ?_
    rw [Scalar.rendered, String.toList_append, Decimal.text, String.toList_ofList]
    refine List.forall_mem_append.2 ⟨fun c hc => ?_, by decide⟩
    exact isSign_of_isNumberChar (d.isNumberChar_chars c hc)
  | double x =>
    refine isProper_signs ?_
    rw [Scalar.rendered, String.toList_append, Double.text, String.toList_ofList]
    refine List.forall_mem_append.2 ⟨fun c hc => ?_, by decide⟩
    exact isSign_of_isNumberChar (x.isNumberChar_chars c hc)
  | text s | chars s => simp [IsProper, lexemes, Lexeme.isProper]

@[simp] lemma isProper_text (s : String) : (text s).IsProper :=
  isProper_scalar _

@[simp] lemma isProper_ofValue (v : Value) : (ofValue v).IsProper := by
  cases v with
  | scalar c => exact isProper_scalar c
  | list vs => simp [ofValue, IsProper, lexemes, Lexeme.isProper]

@[simp] lemma isProper_order (o : SortOrder) : (order o).IsProper := by
  cases o <;> exact isProper_signs (by decide)

@[simp] lemma isProper_side (d : EntrySide) : (side d).IsProper := by
  cases d <;> exact isProper_signs (by decide)

lemma isProper_predicate (c : Comparison) {a : Argument} (ha : a.IsProper) :
    (predicate c a).IsProper := by
  have hname : ∀ l ∈ signs c.predicateName, l.isProper = true := by
    cases c <;> exact isProper_signs (by decide)
  simp only [IsProper, lexemes, List.forall_mem_append, List.forall_mem_cons]
  exact ⟨hname, by decide, ha, by decide, by simp⟩

lemma isProper_traversal {source : Option String} {v : Steps}
    (hsource : ∀ s ∈ source, ∀ c ∈ s.toList, isSign c = true) (hv : v.AreProper) :
    (traversal ⟨source, v⟩).IsProper := by
  simp only [IsProper, lexemes, List.forall_mem_append]
  refine ⟨?_, hv⟩
  cases source with
  | none => cases v <;> exact isProper_signs (by decide)
  | some s => exact isProper_signs (hsource s rfl)

lemma isProper_child {v : Steps} (hv : v.AreProper) : (child v).IsProper :=
  isProper_traversal (by simp) hv

lemma isProper_each {as : List Argument} (has : ∀ a ∈ as, a.IsProper) :
    ∀ l ∈ lexemesOfEach as, l.isProper = true := by
  match as with
  | [] => decide
  | [a] =>
    exact List.forall_mem_append.2 ⟨has a List.mem_cons_self, by decide⟩
  | a :: b :: as =>
    obtain ⟨ha, has⟩ := List.forall_mem_cons.1 has
    refine List.forall_mem_append.2 ⟨ha, List.forall_mem_cons.2 ⟨by decide, ?_⟩⟩
    exact List.forall_mem_cons.2 ⟨by decide, isProper_each has⟩

lemma lexemesOfSteps_append (v w : Steps) :
    lexemesOfSteps (v ++ w) = lexemesOfSteps v ++ lexemesOfSteps w := by
  induction v with
  | nil => rfl
  | cons s v ih => simp [lexemesOfSteps, ih]

end Argument

namespace Steps.AreProper

variable {v w f g : Steps}

lemma nil : AreProper [] := by
  simp [AreProper, Argument.lexemesOfSteps]

lemma append (hv : AreProper v) (hw : AreProper w) : AreProper (v ++ w) := by
  rw [AreProper, Argument.lexemesOfSteps_append]
  exact List.forall_mem_append.2 ⟨hv, hw⟩

lemma isSign_name {name : String} (h : name ∈ Step.names) : ∀ c ∈ name.toList, isSign c = true := by
  have hall : ∀ n ∈ Step.names, ∀ c ∈ n.toList, isSign c = true := by decide
  exact hall name h

lemma step {name : String} (hname : name ∈ Step.names) {as : List Argument}
    (has : ∀ a ∈ as, a.IsProper) : AreProper [.of name as] := by
  refine List.forall_mem_cons.2 ⟨by decide, ?_⟩
  simp only [List.forall_mem_append, List.forall_mem_cons, Argument.lexemesOfSteps]
  exact ⟨isProper_signs (isSign_name hname), by decide, Argument.isProper_each has, by simp⟩

lemma each (h : ∀ s ∈ v, AreProper [s]) : AreProper v := by
  induction v with
  | nil => exact nil
  | cons s v ih =>
    obtain ⟨hs, hv⟩ := List.forall_mem_cons.1 h
    exact append hs (ih hv)

/-- A step over child traversals. -/
lemma ofChildren {name : String} (children : List Steps) (hname : name ∈ Step.names)
    (h : ∀ v ∈ children, AreProper v) : AreProper [.of name (children.map .child)] :=
  step hname (List.forall_mem_map.2 fun v hv => Argument.isProper_child (h v hv))

/-- A step over texts. -/
lemma ofTexts {name : String} (texts : List String) (hname : name ∈ Step.names) :
    AreProper [.of name (texts.map .text)] :=
  step hname (List.forall_mem_map.2 fun s _ => Argument.isProper_text s)

lemma constant (x : Value) : AreProper [.constant x] :=
  step (by decide) (by simp)

lemma satisfies (c : Comparison) (x : Value) : AreProper [.satisfies c x] :=
  step (by decide) (by simpa using Argument.isProper_predicate c (Argument.isProper_ofValue x))

lemma hasValue (property : String) (c : Comparison) (x : Value) :
    AreProper [.hasValue property c x] :=
  step (by decide) (by simpa using Argument.isProper_predicate c (Argument.isProper_ofValue x))

lemma whereEmits (hv : AreProper v) : AreProper [.whereEmits v] :=
  ofChildren [v] (by decide) (by simpa using hv)

lemma not (hv : AreProper v) : AreProper [.not v] :=
  ofChildren [v] (by decide) (by simpa using hv)

lemma by_ (hv : AreProper v) : AreProper [.by_ v] :=
  ofChildren [v] (by decide) (by simpa using hv)

lemma byOrdered (hv : AreProper v) (o : SortOrder) : AreProper [.byOrdered v o] :=
  step (by decide) (by simpa using Argument.isProper_child hv)

lemma coalesce (hv : AreProper v) (x : Value) : AreProper [.coalesce v [.constant x]] :=
  ofChildren [v, [.constant x]] (by decide) (by simpa using ⟨hv, constant x⟩)

lemma truthOf (hv : AreProper v) : AreProper (truthOf v) :=
  ofChildren [v, [.constant (.bool true)], [.constant (.bool false)]] (by decide)
    (by simpa using ⟨hv, constant _, constant _⟩)

lemma holds (hv : AreProper v) : AreProper (holds v) :=
  (hv.append (satisfies _ _)).whereEmits

lemma project (names : List String) : AreProper [.project names] :=
  ofTexts names (by decide)

lemma select (names : List String) : AreProper [.select names] :=
  ofTexts names (by decide)

lemma pair (hv : AreProper v) (hw : AreProper w) : AreProper (pair v w) :=
  append (append (project _) hv.by_) hw.by_

lemma whereEntries (left : String) (c : Comparison) (right : String) :
    AreProper [.whereEntries left c right] :=
  step (by decide) (by simpa using Argument.isProper_predicate c (Argument.isProper_text right))

lemma math (expression : String) : AreProper [.math expression] :=
  ofTexts [expression] (by decide)

lemma dedup : AreProper [.dedup] := step (by decide) (by simp)

lemma selectSide (d : EntrySide) : AreProper [.selectSide d] := step (by decide) (by simp)

lemma reduce (a : Aggregate) : AreProper [.reduce a] := by
  cases a <;> exact step (by decide) (by simp)

lemma groupKeySteps (name : String) : AreProper (Scope.groupKeySteps name) :=
  append (append (selectSide .keys) (select [name])) (satisfies _ _)

end Steps.AreProper

/-! ### The steps of queries -/

section

variable {s s' : Scope} {v : Steps}

lemma areProper_columnSteps {i : Identifier} (h : s.columnSteps i = .ok v) : v.AreProper := by
  obtain ⟨⟨b, c⟩, -, h⟩ := Outcome.bind_eq_ok.1 h
  have hvalues : Steps.AreProper [.values c.property] :=
    .ofTexts [c.property] (by decide)
  dsimp only at h
  split at h
  · cases h
    unfold Scope.propertySteps
    split
    · exact hvalues
    · exact .append (v := [_]) (.select _) hvalues
  · split at h
    · cases h
      exact .groupKeySteps _
    · simp at h

lemma areProper_columnFilter {i : Identifier} {filter : String → Step}
    (hf : ∀ property, Steps.AreProper [filter property])
    (h : Operand.columnFilter s i filter = .ok v) : v.AreProper := by
  obtain ⟨⟨b, c⟩, -, rfl⟩ := Outcome.map_eq_ok.1 h
  dsimp only [Scope.elementFilter]
  split
  · exact hf _
  · exact .whereEmits (.append (v := [_]) (.select _) (hf _))

lemma areProper_groupRowSteps (s : Scope) : s.groupRowSteps.AreProper := by
  have hunfold : Steps.AreProper [.unfold] := .step (by decide) (by simp)
  unfold Scope.groupRowSteps
  split
  · exact hunfold
  · exact .append (v := [_]) (.selectSide _) hunfold

theorem Operand.Becomes.areProper {use : Use} {o : Operand} (h : Becomes use s o v) :
    v.AreProper := by
  have hhas (property : String) : Steps.AreProper [.has property] :=
    .ofTexts [property] (by decide)
  have hhasNot (property : String) : Steps.AreProper [.hasNot property] :=
    .ofTexts [property] (by decide)
  induction h with
  | column h => exact areProper_columnSteps h
  | constant l => exact .constant _
  | isNull _ _ ih | isNotNull _ _ ih | condition _ ih | read _ ih => exact ih
  | guardColumn _ ih | guardSkip _ ih => exact ih
  | not _ _ _ ihg ih => exact .append ihg ih.not
  | negate _ _ ih => exact .append ih (.math _)
  | @count s => exact .append (areProper_groupRowSteps s) (.reduce _)
  | @aggregate s c _ _ a _ _ _ _ _ _ ih =>
    refine .append (.append (.append (areProper_groupRowSteps s) ih) ?_) (.reduce a)
    split
    · exact .dedup
    · exact .nil
  | compareColumn _ _ _ h => exact areProper_columnFilter (fun _ => .hasValue _ _ _) h
  | compareConstant _ _ _ ih => exact .whereEmits (.append ih (.satisfies _ _))
  | compare _ _ _ ihx ihy => exact .whereEmits (.append (ihx.pair ihy) (.whereEntries _ _ _))
  | and _ _ _ ihx ihy | or _ _ _ ihx ihy =>
    exact .ofChildren [_, _] (by decide) (by simpa using ⟨ihx, ihy⟩)
  | arithmetic _ _ _ ihx ihy => exact .append (ihx.pair ihy) (.math _)
  | cast _ _ _ _ ih =>
    refine .append ih ?_
    split
    · exact .step (by decide) (by simp)
    · exact .nil
  | key => exact .groupKeySteps _
  | truth _ ih => exact ih.truthOf
  | holds _ ih => exact ih.holds
  | has _ h => exact areProper_columnFilter hhas h
  | hasNot _ h => exact areProper_columnFilter hhasNot h
  | present _ ih => exact .whereEmits ih
  | absent _ ih => exact ih.not
  | guardNone => exact .nil
  | guardMore _ _ ih ihg => exact .append ih ihg

lemma areProper_label (label name : String) : Steps.AreProper [.hasLabel label, .label name] :=
  .append (v := [_]) (.ofTexts [label] (by decide))
    (.ofTexts [name] (by decide))

lemma areProper_tableSteps {t : TableRef} (h : tableSteps s t = .ok (s', v)) : v.AreProper := by
  obtain ⟨table, -, -, rfl⟩ := tableSteps_cases h
  refine .append (v := [_]) ?_ (areProper_label _ _)
  split <;> exact .step (by decide) (by simp)

lemma areProper_joinSteps {t : TableRef} {condition : Option Node}
    (h : joinSteps s t condition = .ok (s', v)) : v.AreProper := by
  obtain ⟨b, table, w, -, -, -, -, -, rfl⟩ := joinSteps_cases h
  refine .append ?_ (.append (v := [_]) ?_ (areProper_label _ _))
  · split
    · exact .nil
    · exact .select _
  · obtain ⟨edge, _ | _⟩ := w <;> exact .ofTexts [edge.label] (by decide)

lemma areProper_sourceSteps {n : Node} (h : sourceSteps s n = .ok (s', v)) : v.AreProper := by
  induction n using sourceSteps.induct generalizing s' v with
  | case1 t => exact areProper_tableSteps h
  | case2 left t condition ih =>
    obtain ⟨⟨s₁, before⟩, hleft, h⟩ := Outcome.bind_eq_ok.1 h
    obtain ⟨⟨s₂, steps⟩, hjoin, h⟩ := Outcome.bind_eq_ok.1 h
    cases h
    exact .append (ih hleft) (areProper_joinSteps hjoin)
  | _ => simp_all [sourceSteps]

lemma areProper_filters {n : Option Node} (h : Filters s n v) : v.AreProper := by
  cases h with
  | none => exact .nil
  | some _ hv => exact (Operand.becomes_of_filter hv).areProper

lemma areProper_grouped {groupBy : List Node} (h : grouped s groupBy = .ok (s', v)) :
    v.AreProper := by
  obtain ⟨keys, hkeys, h⟩ := Outcome.bind_eq_ok.1 h
  cases h
  have hfold : Steps.AreProper [.fold] := .step (by decide) (by simp)
  have hkeySteps : (keySteps keys).AreProper := by
    refine .append (v := [_]) (.project _) (.each (List.forall_mem_map.2 fun k hk => ?_))
    obtain ⟨n, o, hn⟩ := (exists_isKey hkeys hk).resolve_left List.not_mem_nil
    exact ((Operand.becomes_of_value hn.value).areProper.coalesce _).by_
  unfold groupingSteps
  refine .append ?_ ?_
  · split
    · exact .nil
    · exact .select _
  · split
    · exact hfold
    · exact .append (.append (.append (v := [_]) (.step (by decide) (by simp)) hkeySteps.by_) hfold.by_)
        (.step (by decide) (by simp))

lemma areProper_orderSteps {items : List Item} {keys : List (SortKey Node)}
    (h : orderSteps s items keys = .ok v) : v.AreProper := by
  unfold orderSteps at h
  split at h
  · cases h
    exact .nil
  · obtain ⟨steps, hsteps, h⟩ := Outcome.bind_eq_ok.1 h
    cases h
    refine .append (v := [_]) (.step (by decide) (by simp)) (.each fun step hstep => ?_)
    obtain ⟨key, -, hkey⟩ := (Outcome.mapM_eq_ok hsteps).1 step hstep
    obtain ⟨o, -, hkey⟩ := Outcome.bind_eq_ok.1 hkey
    obtain ⟨value, hvalue, hkey⟩ := Outcome.bind_eq_ok.1 hkey
    cases hkey
    exact ((Operand.becomes_of_value hvalue).areProper.coalesce _).byOrdered _

lemma areProper_projectionSteps {items : List Item} (h : projectionSteps s items = .ok v) :
    v.AreProper := by
  obtain ⟨values, hvalues, h⟩ := Outcome.bind_eq_ok.1 h
  cases h
  refine .append (v := [_]) (.project _) (.each (List.forall_mem_map.2 fun v hv => ?_))
  obtain ⟨i, -, hi⟩ := (Outcome.mapM_eq_ok hvalues).1 v hv
  exact ((Operand.becomes_of_value hi).areProper.coalesce _).by_

lemma areProper_limitSteps (limit : Option Literal) (maxRows : Option Int) :
    (limitSteps limit maxRows).AreProper := by
  unfold limitSteps
  cases effectiveLimit limit maxRows with
  | none => exact .nil
  | some n => exact .step (by decide) (by simp)

lemma areProper_of_plan {c : Catalog} {source : Option String} {maxRows : Option Int} {q : Select}
    {p : Plan} (h : plan c source maxRows q = .ok p) :
    ∃ v : Steps, p.traversal = ⟨source, v⟩ ∧ v.AreProper := by
  obtain ⟨x, hx, hp, -⟩ := plan_eq_ok h
  obtain ⟨n, -, hn⟩ := hx.source
  have hgrouping : x.grouping.AreProper := by
    have hg := hx.grouping
    split at hg
    · exact areProper_grouped hg
    · rw [hg.2]
      exact .nil
  have hprojection := areProper_projectionSteps hx.projection
  have hlimit := areProper_limitSteps q.limit maxRows
  refine ⟨x.steps q maxRows, hp, .append (.append (.append (.append (.append
    (areProper_sourceSteps hn) (areProper_filters hx.filter)) hgrouping)
    (areProper_filters hx.having)) (areProper_orderSteps hx.sorting)) ?_⟩
  split
  · exact .append (.append hprojection .dedup) hlimit
  · exact .append hlimit hprojection

end

/-- The text of a query's traversal is read as its steps are meant, if it can be read. -/
lemma lexes_of_convert {x : Converter} {text : String} {p : Plan} {ls : List Lexeme}
    (hsource : ∀ s ∈ x.source, ∀ c ∈ s.toList, isSign c = true) (hp : x.convert text = .ok p) :
    Lexes p.traversal.render.toList ls ↔
      ls = p.traversal.lexemes ∧ ∀ s, .literal s ∈ p.traversal.lexemes → IsOneLine s.toList := by
  obtain ⟨q, q', -, -, hplan⟩ := Converter.convert_eq_ok hp
  obtain ⟨v, hv, hproper⟩ := areProper_of_plan hplan
  rw [← Argument.render_traversal, Argument.toList_render]
  refine lexes_flatMap ?_
  rw [hv]
  exact Argument.isProper_traversal hsource hproper

/-- **Texts are written as literals that are read as them**, whatever characters they have except
the ends of lines, and there is no literal for a text with several lines. So the text of a query's
traversal is read as its steps are meant exactly if every text in it has one line. -/
theorem renders_literals (s : String) (x : Converter) (text : String) (p : Plan) :
    literal? (Argument.text s).render = (if IsOneLine s.toList then some s else none) ∧
      ((∀ source ∈ x.source, ∀ c ∈ source.toList, isSign c = true) → x.convert text = .ok p →
        ∀ ls, Lexes p.traversal.render.toList ls ↔
          ls = p.traversal.lexemes ∧
            ∀ content, .literal content ∈ p.traversal.lexemes → IsOneLine content.toList) :=
  ⟨literal?_escaped s, fun hsource hp _ => lexes_of_convert hsource hp⟩

namespace People

lemma isSign_source : ∀ s ∈ converter.source, ∀ c ∈ s.toList, isSign c = true := by
  rintro s ⟨⟩
  decide

/-- Whoever has a name that ends in a quote and a backslash. -/
def quotedName : String :=
  "SELECT age FROM person WHERE name = '''\\'"

/-- The quote and the backslash do not end the literal. -/
theorem lexes_quotedName : literal? (Argument.text "'\\").render = some "'\\" ∧
    ∃ p, converter.convert quotedName = .ok p ∧ .literal "'\\" ∈ p.traversal.lexemes ∧
      Lexes p.traversal.render.toList p.traversal.lexemes := by
  obtain ⟨p, hp⟩ := Converter.exists_of_isOk
    (show (converter.convert quotedName).isOk by decide +kernel)
  obtain ⟨hliteral, hlexes⟩ := renders_literals "'\\" converter quotedName p
  have hcheck : (match converter.convert quotedName with
      | .ok p => p.traversal.lexemes.contains (.literal "'\\") && p.traversal.lexemes.all fun
        | .literal s => decide (IsOneLine s.toList)
        | .sign _ => true
      | .error _ => false) = true := by decide +kernel
  simp only [hp, Bool.and_eq_true, List.contains_iff_mem, List.all_eq_true] at hcheck
  refine ⟨by rw [hliteral, if_pos (by decide)], p, hp, hcheck.1, ?_⟩
  refine (hlexes isSign_source hp _).2 ⟨rfl, fun s hs => ?_⟩
  simpa using hcheck.2 _ hs

/-- Whoever has a name of two lines. -/
def twoLineName : String :=
  "SELECT age FROM person WHERE name = 'a\nb'"

/-- The text of a traversal with a name of two lines is not that of a traversal. -/
theorem not_lexes_twoLineName : literal? (Argument.text "a\nb").render ≠ some "a\nb" ∧
    ∃ p, converter.convert twoLineName = .ok p ∧ ∀ ls, ¬ Lexes p.traversal.render.toList ls := by
  obtain ⟨p, hp⟩ := Converter.exists_of_isOk
    (show (converter.convert twoLineName).isOk by decide +kernel)
  have hcheck : (match converter.convert twoLineName with
      | .ok p => p.traversal.lexemes.contains (.literal "a\nb")
      | .error _ => false) = true := by decide +kernel
  simp only [hp, List.contains_iff_mem] at hcheck
  refine ⟨by decide, p, hp, fun ls h => ?_⟩
  exact absurd (((lexes_of_convert isSign_source hp).1 h).2 _ hcheck) (by decide)

end People

end GraphSelect
