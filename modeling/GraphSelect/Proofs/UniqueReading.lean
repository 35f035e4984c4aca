import GraphSelect.Proofs.Numbers
import GraphSelect.Traversal.Printer

/-!
The text of a traversal tells which traversal it is.

An argument begins with a word, up to the first bracket, comma or quote: the whole argument if it is
a constant, the name of a comparison, the first step of a child, and nothing if it is a text. The
word tells which of these it is, so the argument ends where it must, whatever stands behind it. In a
text, which may hold brackets and quotes itself, every quote that does not end it is escaped.
-/

namespace GraphSelect

open Text

/-! ### Plain traversals -/

/-- The steps that there are. -/
def Step.names : List String :=
  ["V", "E", "hasLabel", "has", "hasNot", "is", "where", "and", "or", "not", "dedup", "limit", "as",
    "out", "in", "select", "values", "constant", "coalesce", "choose", "project", "by", "math",
    "asString", "group", "fold", "unfold", "order", "count", "sum", "mean", "min", "max"]

/-- Texts, whole numbers, truth values, null and finite decimals. -/
def Scalar.isPlain : Scalar → Bool
  | .null | .bool _ | .int _ | .text _ | .decimal (.finite _ _ _) => true
  | _ => false

/-- Arguments that are plain constants, orders, sides, comparisons with such, and children whose
steps take only such. -/
inductive Argument.IsPlain : Argument → Prop
  | scalar {c : Scalar} (h : c.isPlain = true) : IsPlain (.scalar c)
  | order (o : SortOrder) : IsPlain (.order o)
  | side (d : EntrySide) : IsPlain (.side d)
  | predicate (c : Comparison) {a : Argument} (h : IsPlain a) : IsPlain (.predicate c a)
  | child {steps : Steps} (hn : ∀ s ∈ steps, s.name ∈ Step.names)
      (h : ∀ s ∈ steps, ∀ a ∈ s.arguments, IsPlain a) : IsPlain (.child steps)

def Traversal.IsPlain (t : Traversal) : Prop :=
  ∀ s ∈ t.steps, s.name ∈ Step.names ∧ ∀ a ∈ s.arguments, a.IsPlain

/-! ### Words -/

/-- The characters that no word has. -/
def isMark (c : Char) : Bool :=
  ['(', ')', ',', '\''].contains c

/-- Nothing, or what does not go on with a word. -/
def Breaks (r : List Char) : Prop := ∀ c ∈ r.head?, isMark c = true

/-- What may stand behind an argument. -/
def Ends (r : List Char) : Prop := ∀ c ∈ r.head?, c = ',' ∨ c = ')'

lemma Ends.breaks {r : List Char} (h : Ends r) : Breaks r := by
  intro c hc
  rcases h c hc with rfl | rfl <;> decide

lemma breaks_cons {c : Char} (hc : isMark c = true) (r : List Char) : Breaks (c :: r) := by
  simpa [Breaks] using hc

/-- A word ends where a mark stands. -/
lemma word_append {w w' r r' : List Char} (hw : ∀ c ∈ w, isMark c = false)
    (hw' : ∀ c ∈ w', isMark c = false) (hr : Breaks r) (hr' : Breaks r') (h : w ++ r = w' ++ r') :
    w = w' ∧ r = r' := by
  induction w generalizing w' with
  | nil =>
    cases w' with
    | nil => exact ⟨rfl, h⟩
    | cons c w' =>
      subst h
      exact absurd (hr c rfl) (by simp [hw' c])
  | cons c w ih =>
    obtain ⟨hc, hw⟩ := List.forall_mem_cons.1 hw
    cases w' with
    | nil =>
      subst h
      exact absurd (hr' c rfl) (by simp [hc])
    | cons c' w' =>
      simp only [List.cons_append, List.cons.injEq] at h
      obtain ⟨rfl, h⟩ := h
      obtain ⟨rfl, rfl⟩ := ih hw (List.forall_mem_cons.1 hw').2 h
      exact ⟨rfl, rfl⟩

/-- Reads a text up to the first quote that is not escaped, and gives what stands behind it. -/
def readEscaped : List Char → List Char × List Char
  | '\\' :: c :: cs => (c :: (readEscaped cs).1, (readEscaped cs).2)
  | '\'' :: cs => ([], cs)
  | c :: cs => (c :: (readEscaped cs).1, (readEscaped cs).2)
  | [] => ([], [])

lemma readEscaped_escaped (cs r : List Char) :
    readEscaped (cs.flatMap escapeChar ++ '\'' :: r) = (cs, r) := by
  induction cs with
  | nil => rfl
  | cons c cs ih =>
    by_cases hb : c = '\\'
    · subst hb
      simp [escapeChar, readEscaped, ih]
    · by_cases hq : c = '\''
      · subst hq
        simp [escapeChar, readEscaped, ih]
      · simp [escapeChar, readEscaped, hb, ih]

/-! ### Arguments and their words -/

/-- What an argument is by its word. -/
inductive Shape where
  | text
  | predicate (c : Comparison)
  | child
  | constant (a : Argument)

/-- The words that are no numbers. -/
def Shape.words : List (List Char × Shape) :=
  [("null".toList, .constant (.scalar .null)), ("true".toList, .constant (.scalar (.bool true))),
    ("false".toList, .constant (.scalar (.bool false))), ("asc".toList, .constant (.order .ascending)),
    ("desc".toList, .constant (.order .descending)), ("keys".toList, .constant (.side .keys)),
    ("values".toList, .constant (.side .values)), ("eq".toList, .predicate .equal),
    ("neq".toList, .predicate .notEqual), ("lt".toList, .predicate .less),
    ("gt".toList, .predicate .greater), ("lte".toList, .predicate .lessOrEqual),
    ("gte".toList, .predicate .greaterOrEqual)]

/-- Reads a number. A decimal has a suffix. -/
def Argument.ofNumber (w : List Char) : Argument :=
  if w.getLast? = some 'G' then
    .scalar (.decimal ((Decimal.read? (String.ofList w.dropLast)).getD default))
  else .scalar (.int (intOfDigits w))

def Shape.ofWord : List Char → Shape
  | [] => .text
  | '_' :: _ => .child
  | w => (words.lookup w).getD (.constant (.ofNumber w))

/-- A number is none of the other words. -/
lemma Shape.ofWord_number {c : Char} (hc : isDigit c = true ∨ c = '-') (cs : List Char) :
    ofWord (c :: cs) = .constant (.ofNumber (c :: cs)) := by
  have hhead : ∀ p ∈ words, ∀ d ∈ p.1.head?, isDigit d = false ∧ d ≠ '-' := by decide
  have hlookup : words.lookup (c :: cs) = none := by
    refine List.lookup_eq_none_iff.2 fun p hp => bne_iff_ne.2 fun h => ?_
    obtain ⟨hd, hm⟩ := hhead p hp c (by simp [← h])
    rcases hc with hc | hc <;> simp_all
  have hline : c ≠ '_' := by
    rintro rfl
    exact absurd hc (by decide)
  simp [ofWord, hline, hlookup]

lemma isMark_of_isDigit {c : Char} (h : isDigit c = true) : isMark c = false := by
  have hmarks : ∀ d ∈ ['(', ')', ',', '\''], isDigit d = false := by decide
  cases hm : isMark c with
  | false => rfl
  | true =>
    rw [hmarks c (List.contains_iff_mem.1 hm)] at h
    exact absurd h (by decide)

/-! ### The texts of steps -/

/-- The texts of arguments one after the other, with what closes them. -/
def closed : List (List Char) → List Char
  | [] => [')']
  | [t] => t ++ [')']
  | t :: ts => t ++ ',' :: ' ' :: closed ts

lemma toList_stepText (name : String) (ts : List String) :
    (stepText name ts).toList = name.toList ++ '(' :: closed (ts.map String.toList) := by
  have hclosed (ts : List String) :
      (", ".intercalate ts).toList ++ [')'] = closed (ts.map String.toList) := by
    induction ts with
    | nil => rfl
    | cons t ts ih =>
      cases ts with
      | nil => simp [closed]
      | cons u ts =>
        rw [List.map_cons, List.map_cons, closed, ← List.map_cons, ← ih]
        · simp [String.toList_intercalate]
        · simp
  simp [stepText, ← hclosed]

/-- The text of steps, each behind a point. -/
def Steps.chars (steps : Steps) : List Char :=
  steps.flatMap fun s => '.' :: (s.name.toList ++ '(' :: closed (s.arguments.map (·.render.toList)))

/-- A child without steps is written like one that takes a step of this name. -/
def Steps.written (steps : Steps) : Steps :=
  if steps.isEmpty then [.of "identity" []] else steps

lemma toList_traversalText (source : Option String) (steps : Steps) (h : source.isSome ∨ steps ≠ []) :
    (traversalText source (steps.map Step.render)).toList =
      (source.getD "__").toList ++ Steps.chars steps := by
  have hjoin : (String.join (source.getD "__" :: (steps.map Step.render).map ("." ++ ·))).toList =
      (source.getD "__").toList ++ Steps.chars steps := by
    simp [String.toList_join, Steps.chars, List.flatMap_map, Step.render, toList_stepText,
      Function.comp_def]
  unfold traversalText
  split
  · next hsteps => simp_all
  · exact hjoin

lemma toList_child (steps : Steps) :
    (Argument.child steps).render.toList = '_' :: '_' :: Steps.chars (Steps.written steps) := by
  have hrender : (Argument.child steps).render = traversalText none (steps.map Step.render) :=
    Argument.render_traversal ⟨none, steps⟩
  rw [hrender, Steps.written]
  cases steps with
  | nil => decide
  | cons s steps => exact toList_traversalText none (s :: steps) (.inr (by simp))

namespace Argument

def shape : Argument → Shape
  | .scalar (.text _) => .text
  | .predicate c _ => .predicate c
  | .traversal _ => .child
  | a => .constant a

/-- An argument begins with a word that tells what it is. -/
structure Begins (a : Argument) (w rest : List Char) : Prop where
  toList : a.render.toList = w ++ rest
  word : ∀ c ∈ w, isMark c = false
  breaks : Breaks rest
  ofWord : Shape.ofWord w = a.shape
  whole : a.shape = .constant a → rest = []

variable {a b : Argument}

lemma toList_text (s : String) :
    (scalar (.text s)).render.toList = '\'' :: (s.toList.flatMap escapeChar ++ ['\'']) := by
  simp [render, Scalar.rendered, Scalar.plain, escaped]

lemma begins_word {w : String} (h : a.render = w) (hw : ∀ c ∈ w.toList, isMark c = false)
    (hs : Shape.ofWord w.toList = a.shape) : a.Begins w.toList [] :=
  ⟨by simp [h], hw, by simp [Breaks], hs, fun _ => rfl⟩

lemma begins_int (n : Int) : (scalar (.int n)).Begins (ofInt n).toList [] := by
  have hchars : ∀ c ∈ (ofInt n).toList, isDigit c = true ∨ c = '-' := by
    intro c hc
    simp only [ofInt, String.toList_ofList, List.mem_append] at hc
    rcases hc with hc | hc
    · right
      split at hc <;> simp_all
    · exact .inl (isDigit_of_mem_digitsOf hc)
  refine begins_word rfl ?_ ?_
  · intro c hc
    rcases hchars c hc with hc | rfl
    · exact isMark_of_isDigit hc
    · decide
  · obtain ⟨c, cs, h⟩ : ∃ c cs, (ofInt n).toList = c :: cs := by
      obtain ⟨d, ds, hd, -⟩ := exists_digitsOf n.natAbs
      by_cases hn : n < 0 <;> simp [ofInt, hn, hd]
    have hlast : (ofInt n).toList.getLast? ≠ some 'G' := by
      intro hlast
      exact absurd (hchars _ (List.mem_of_getLast? hlast)) (by decide)
    rw [h, Shape.ofWord_number (hchars c (by simp [h])), ← h, ofNumber, if_neg hlast,
      intOfDigits_ofInt]
    rfl

lemma begins_decimal (negative : Bool) (n : Nat) (e : Int) :
    (scalar (.decimal (.finite negative n e))).Begins
      ((Decimal.finite negative n e).chars ++ ['G']) [] := by
  obtain ⟨cs, p, hchars, hp, -, -⟩ := Decimal.exists_written negative n e
  obtain ⟨c, ds, rfl, hc⟩ := hp.exists_cons
  have hdecimal {c : Char} (hc : Decimal.isDecimalChar c = true) : isMark c = false := by
    have hmarks : ∀ d ∈ ['.', 'E', '+', '-'], isMark d = false := by decide
    simp only [Decimal.isDecimalChar, Bool.or_eq_true, List.contains_iff_mem] at hc
    exact hc.elim isMark_of_isDigit (hmarks c)
  have hsign : ∀ c ∈ Decimal.sign negative, c = '-' := by
    cases negative <;> simp [Decimal.sign]
  refine ⟨by simp [render, Scalar.rendered, Decimal.text], ?_, by simp [Breaks], ?_, fun _ => rfl⟩
  · rw [hchars]
    simp only [List.forall_mem_append, List.forall_mem_singleton]
    refine ⟨⟨fun c hc => ?_, fun c hc => hdecimal (hp.isDecimalChar c hc)⟩, by decide⟩
    rw [hsign c hc]
    decide
  · obtain ⟨d, ds', hd, hfirst⟩ : ∃ d ds', (Decimal.finite negative n e).chars ++ ['G'] = d :: ds' ∧
        (isDigit d = true ∨ d = '-') := by
      rw [hchars]
      cases negative with
      | false => exact ⟨c, _, rfl, .inl hc⟩
      | true => exact ⟨'-', _, rfl, .inr rfl⟩
    rw [hd, Shape.ofWord_number hfirst, ← hd, ofNumber, if_pos (by simp), List.dropLast_concat]
    have := Decimal.read?_text negative n e
    rw [Decimal.text] at this
    rw [this]
    rfl

lemma isMark_name {name : String} (h : name ∈ "identity" :: Step.names) :
    ∀ c ∈ name.toList, isMark c = false := by
  have hall : ∀ n ∈ "identity" :: Step.names, ∀ c ∈ n.toList, isMark c = false := by decide
  exact hall name h

lemma exists_begins_scalar {c : Scalar} (h : c.isPlain) : ∃ w rest, (scalar c).Begins w rest := by
  cases c with
  | null => exact ⟨_, _, begins_word (w := "null") rfl (by decide) rfl⟩
  | bool b =>
    cases b with
    | true => exact ⟨_, _, begins_word (w := "true") rfl (by decide) rfl⟩
    | false => exact ⟨_, _, begins_word (w := "false") rfl (by decide) rfl⟩
  | int n => exact ⟨_, _, begins_int n⟩
  | decimal d =>
    cases d with
    | finite negative n e => exact ⟨_, _, begins_decimal negative n e⟩
    | infinite | nan => simp [Scalar.isPlain] at h
  | text s => exact ⟨[], _, toList_text s, by simp, breaks_cons (by decide) _, rfl, by rintro ⟨⟩⟩
  | double | chars => simp [Scalar.isPlain] at h

lemma exists_begins (h : a.IsPlain) : ∃ w rest, a.Begins w rest := by
  cases h with
  | scalar h => exact exists_begins_scalar h
  | order o =>
    cases o with
    | ascending => exact ⟨_, _, begins_word (w := "asc") rfl (by decide) rfl⟩
    | descending => exact ⟨_, _, begins_word (w := "desc") rfl (by decide) rfl⟩
  | side d =>
    cases d with
    | keys => exact ⟨_, _, begins_word (w := "keys") rfl (by decide) rfl⟩
    | values => exact ⟨_, _, begins_word (w := "values") rfl (by decide) rfl⟩
  | @predicate c a h =>
    refine ⟨c.predicateName.toList, '(' :: a.render.toList ++ [')'], ?_, ?_, ?_, ?_, by rintro ⟨⟩⟩
    · simp [render]
    · cases c <;> decide
    · exact breaks_cons (by decide) _
    · cases c <;> rfl
  | @child steps hn h =>
    obtain ⟨s, more, hwritten, hs⟩ : ∃ s more, Steps.written steps = s :: more ∧
        s.name ∈ "identity" :: Step.names := by
      cases steps with
      | nil => exact ⟨_, _, rfl, by simp [Step.of]⟩
      | cons s more => exact ⟨s, more, rfl, List.mem_cons_of_mem _ (hn s List.mem_cons_self)⟩
    refine ⟨'_' :: '_' :: '.' :: s.name.toList,
      '(' :: closed (s.arguments.map (·.render.toList)) ++ Steps.chars more, ?_, ?_, ?_, rfl, by rintro ⟨⟩⟩
    · rw [toList_child, hwritten]
      simp [Steps.chars]
    · simp only [List.forall_mem_cons]
      exact ⟨by decide, by decide, by decide, isMark_name hs⟩
    · exact breaks_cons (by decide) _

/-- No argument begins as the end of arguments does. -/
lemma exists_first (h : a.IsPlain) : ∃ c cs, a.render.toList = c :: cs ∧ c ≠ ')' := by
  obtain ⟨w, rest, hb⟩ := exists_begins h
  cases w with
  | nil =>
    have hshape : Shape.text = a.shape := hb.ofWord
    cases h with
    | @scalar c h =>
      cases c with
      | text s => exact ⟨_, _, toList_text s, by decide⟩
      | _ => cases hshape
    | _ => cases hshape
  | cons c w =>
    refine ⟨c, w ++ rest, hb.toList, ?_⟩
    rintro rfl
    exact absurd (hb.word _ List.mem_cons_self) (by decide)

/-! ### Telling arguments apart -/

/-- An argument ends at the same place as any other one with the same text, and is that one. -/
def IsTold (a : Argument) : Prop :=
  ∀ b : Argument, b.IsPlain → ∀ r r', Ends r → Ends r' →
    a.render.toList ++ r = b.render.toList ++ r' → a = b ∧ r = r'

end Argument

variable {r r' : List Char}

namespace Argument

variable {a b : Argument}

lemma eq_of_shape (h : b.shape = .constant a) : b = a := by
  cases b with
  | scalar c => cases c <;> first | exact (Shape.constant.inj h) | cases h
  | list | order | side => exact Shape.constant.inj h
  | predicate | traversal => cases h

/-- Arguments with the same text have the same shape. -/
lemma shape_eq (ha : a.IsPlain) (hb : b.IsPlain) (hr : Ends r) (hr' : Ends r')
    (h : a.render.toList ++ r = b.render.toList ++ r') :
    a.shape = b.shape ∧ (a.shape = .constant a → a = b ∧ r = r') := by
  obtain ⟨w, rest, hw⟩ := exists_begins ha
  obtain ⟨w', rest', hw'⟩ := exists_begins hb
  have hbreaks {rest r : List Char} (h : Breaks rest) (hr : Ends r) : Breaks (rest ++ r) := by
    cases rest with
    | nil => exact hr.breaks
    | cons => exact h
  rw [hw.toList, hw'.toList, List.append_assoc, List.append_assoc] at h
  obtain ⟨rfl, hrest⟩ := word_append hw.word hw'.word (hbreaks hw.breaks hr) (hbreaks hw'.breaks hr') h
  have hshape : a.shape = b.shape := hw.ofWord.symm.trans hw'.ofWord
  refine ⟨hshape, fun hconstant => ?_⟩
  obtain rfl := eq_of_shape (hshape.symm.trans hconstant)
  rw [hw.whole hconstant, hw'.whole hconstant] at hrest
  exact ⟨rfl, hrest⟩

end Argument

lemma closed_cons (t : List Char) (ts : List (List Char)) :
    closed (t :: ts) = t ++ if ts.isEmpty then [')'] else ',' :: ' ' :: closed ts := by
  cases ts <;> rfl

lemma closed_told {as bs : List Argument} (has : ∀ a ∈ as, a.IsPlain) (ht : ∀ a ∈ as, a.IsTold)
    (hbs : ∀ b ∈ bs, b.IsPlain)
    (h : closed (as.map (·.render.toList)) ++ r = closed (bs.map (·.render.toList)) ++ r') :
    as = bs ∧ r = r' := by
  have hends (ts : List (List Char)) (r : List Char) :
      Ends ((if ts.isEmpty then [')'] else ',' :: ' ' :: closed ts) ++ r) := by
    cases ts <;> simp [Ends]
  induction as generalizing bs with
  | nil =>
    cases bs with
    | nil => exact ⟨rfl, (List.cons.inj h).2⟩
    | cons b bs =>
      obtain ⟨c, cs, hc, hne⟩ := Argument.exists_first (hbs b List.mem_cons_self)
      rw [List.map_cons, closed_cons, hc] at h
      exact absurd (List.cons.inj h).1.symm hne
  | cons a as ih =>
    obtain ⟨ha, has⟩ := List.forall_mem_cons.1 has
    obtain ⟨hta, ht⟩ := List.forall_mem_cons.1 ht
    cases bs with
    | nil =>
      obtain ⟨c, cs, hc, hne⟩ := Argument.exists_first ha
      rw [List.map_cons, closed_cons, hc] at h
      exact absurd (List.cons.inj h).1 hne
    | cons b bs =>
      obtain ⟨hb, hbs'⟩ := List.forall_mem_cons.1 hbs
      rw [List.map_cons, List.map_cons, closed_cons, closed_cons, List.append_assoc,
        List.append_assoc] at h
      obtain ⟨rfl, hmore⟩ := hta b hb _ _ (hends _ _) (hends _ _) h
      cases as <;> cases bs
      · exact ⟨rfl, (List.cons.inj hmore).2⟩
      · exact absurd (List.cons.inj hmore).1 (by decide)
      · exact absurd (List.cons.inj hmore).1 (by decide)
      · obtain ⟨hsame, rfl⟩ := ih has ht hbs' (List.cons.inj (List.cons.inj hmore).2).2
        exact ⟨by rw [hsame], rfl⟩

/-- Steps are told apart if their arguments are. -/
lemma chars_told {v w : Steps}
    (hv : ∀ s ∈ v, s.name ∈ "identity" :: Step.names ∧
      ∀ a ∈ s.arguments, a.IsPlain ∧ a.IsTold)
    (hw : ∀ s ∈ w, s.name ∈ "identity" :: Step.names ∧ ∀ a ∈ s.arguments, a.IsPlain)
    (hr : Ends r) (hr' : Ends r') (h : Steps.chars v ++ r = Steps.chars w ++ r') :
    v = w ∧ r = r' := by
  have hpoint {s : Step} {v : Steps} {r r' : List Char} (hr : Ends r)
      (h : r = Steps.chars (s :: v) ++ r') : False := by
    subst h
    rcases hr '.' rfl with h | h <;> exact absurd h (by decide)
  have hcons (s : Step) (v : Steps) (r : List Char) : Steps.chars (s :: v) ++ r =
      '.' :: (s.name.toList ++
        '(' :: (closed (s.arguments.map (·.render.toList)) ++ (Steps.chars v ++ r))) := by
    simp [Steps.chars]
  induction v generalizing w with
  | nil =>
    cases w with
    | nil => exact ⟨rfl, h⟩
    | cons t w => exact (hpoint hr h).elim
  | cons s v ih =>
    obtain ⟨⟨hs, hargs⟩, hv⟩ := List.forall_mem_cons.1 hv
    cases w with
    | nil => exact (hpoint hr' h.symm).elim
    | cons t w =>
      obtain ⟨⟨ht, hargs'⟩, hw⟩ := List.forall_mem_cons.1 hw
      rw [hcons, hcons] at h
      obtain ⟨hname, h⟩ := word_append (Argument.isMark_name hs) (Argument.isMark_name ht)
        (breaks_cons (by decide) _) (breaks_cons (by decide) _) (List.cons.inj h).2
      obtain ⟨hall, h⟩ := closed_told (fun a ha => (hargs a ha).1) (fun a ha => (hargs a ha).2) hargs'
        (List.cons.inj h).2
      obtain ⟨rfl, rfl⟩ := ih hv hw h
      obtain rfl : s = t := by
        cases s
        cases t
        cases hall
        cases String.toList_injective hname
        rfl
      exact ⟨rfl, rfl⟩

lemma written_injective {v w : Steps} (hv : ∀ s ∈ v, s.name ∈ Step.names)
    (hw : ∀ s ∈ w, s.name ∈ Step.names) (h : Steps.written v = Steps.written w) : v = w := by
  have hidentity : "identity" ∉ Step.names := by decide
  cases v <;> cases w
  · rfl
  · cases h
    exact absurd (hw _ List.mem_cons_self) hidentity
  · cases h
    exact absurd (hv _ List.mem_cons_self) hidentity
  · exact h

lemma forall_written {v : Steps} {p : Argument → Prop}
    (h : ∀ s ∈ v, s.name ∈ Step.names ∧ ∀ a ∈ s.arguments, p a) :
    ∀ s ∈ Steps.written v, s.name ∈ "identity" :: Step.names ∧ ∀ a ∈ s.arguments, p a := by
  cases v with
  | nil => simp [Steps.written, Step.of]
  | cons s v => exact fun t ht => ⟨List.mem_cons_of_mem _ (h t ht).1, (h t ht).2⟩

/-- A plain argument is told apart from all others. -/
theorem Argument.IsPlain.isTold {a : Argument} (h : a.IsPlain) : a.IsTold := by
  induction h with
  | @scalar c hc =>
    intro b hb r r' hr hr' h
    obtain ⟨hshape, hconstant⟩ := shape_eq (.scalar hc) hb hr hr' h
    cases c with
    | text s =>
      cases hb with
      | @scalar d hd =>
        cases d with
        | text t =>
          rw [toList_text, toList_text] at h
          simp only [List.cons_append, List.append_assoc, List.nil_append, List.cons.injEq,
            true_and] at h
          have hread := congrArg readEscaped h
          rw [readEscaped_escaped, readEscaped_escaped, Prod.mk.injEq] at hread
          exact ⟨by rw [String.toList_injective hread.1], hread.2⟩
        | _ => cases hshape
      | _ => cases hshape
    | _ => exact hconstant rfl
  | order o =>
    intro b hb r r' hr hr' h
    exact (shape_eq (.order o) hb hr hr' h).2 rfl
  | side d =>
    intro b hb r r' hr hr' h
    exact (shape_eq (.side d) hb hr hr' h).2 rfl
  | @predicate c a ha ih =>
    intro b hb r r' hr hr' h
    obtain ⟨hshape, -⟩ := shape_eq (.predicate c ha) hb hr hr' h
    cases hb with
    | @predicate d b hb =>
      cases hshape
      have htext (a : Argument) (r : List Char) : (Argument.predicate c a).render.toList ++ r =
          c.predicateName.toList ++ '(' :: (a.render.toList ++ ')' :: r) := by
        simp [render]
      rw [htext, htext] at h
      obtain ⟨rfl, hrest⟩ := ih b hb _ _ (by simp [Ends]) (by simp [Ends])
        (List.cons.inj (List.append_cancel_left h)).2
      exact ⟨rfl, (List.cons.inj hrest).2⟩
    | @scalar d hd => cases d <;> cases hshape
    | _ => cases hshape
  | @child v hn hv ih =>
    intro b hb r r' hr hr' h
    obtain ⟨hshape, -⟩ := shape_eq (.child hn hv) hb hr hr' h
    cases hb with
    | @child w hn' hw =>
      rw [toList_child, toList_child] at h
      obtain ⟨hwritten, rfl⟩ := chars_told
        (forall_written fun s hs => ⟨hn s hs, fun a ha => ⟨hv s hs a ha, ih s hs a ha⟩⟩)
        (forall_written fun s hs => ⟨hn' s hs, hw s hs⟩) hr hr'
        (List.cons.inj (List.cons.inj h).2).2
      exact ⟨by rw [written_injective hn hn' hwritten], rfl⟩
    | @scalar d hd => cases d <;> cases hshape
    | _ => cases hshape

/-- **The text of a traversal tells which one it is**, whatever its arguments hold. -/
theorem render_injective {t u : Traversal} (ht : t.IsPlain) (hu : u.IsPlain)
    (hs : t.source = u.source) (h : t.render = u.render) : t = u := by
  obtain ⟨source, v⟩ := t
  obtain ⟨source', w⟩ := u
  obtain rfl : source = source' := hs
  have hends : Ends [] := by simp [Ends]
  have hv : ∀ s ∈ v, s.name ∈ Step.names ∧ ∀ a ∈ s.arguments, a.IsPlain ∧ a.IsTold :=
    fun s hs => ⟨(ht s hs).1, fun a ha => ⟨(ht s hs).2 a ha, ((ht s hs).2 a ha).isTold⟩⟩
  cases source with
  | none =>
    have hchild (v : Steps) : Traversal.render ⟨none, v⟩ = (Argument.child v).render :=
      (Argument.render_traversal ⟨none, v⟩).symm
    rw [hchild, hchild] at h
    have htold := Argument.IsPlain.isTold (.child (fun s hs => (ht s hs).1) fun s hs => (ht s hs).2)
    obtain ⟨heq, -⟩ := htold (.child w) (.child (fun s hs => (hu s hs).1) fun s hs => (hu s hs).2)
      [] [] hends hends (by rw [h])
    cases heq
    rfl
  | some source =>
    have := congrArg String.toList h
    simp only [Traversal.render] at this
    rw [toList_traversalText _ _ (.inl rfl), toList_traversalText _ _ (.inl rfl)] at this
    have hchars : Steps.chars v ++ [] = Steps.chars w ++ [] := by
      rw [List.append_cancel_left this]
    obtain ⟨rfl, -⟩ := chars_told
      (fun s hs => ⟨List.mem_cons_of_mem _ (hv s hs).1, (hv s hs).2⟩)
      (fun s hs => ⟨List.mem_cons_of_mem _ (hu s hs).1, (hu s hs).2⟩) hends hends hchars
    rfl

/-- The people of a name that holds a quote and a bracket, without an age. -/
def People.unquoted : Traversal :=
  ⟨some "g", ([.vertices, .hasValue "name" .equal (.text "')"), .not [.values "age"]] : Steps)⟩

lemma People.isPlain_unquoted : unquoted.IsPlain := by
  have htext (s : String) : (Argument.text s).IsPlain := .scalar rfl
  intro s hs
  simp only [unquoted, List.mem_cons, List.not_mem_nil, or_false] at hs
  rcases hs with rfl | rfl | rfl
  · exact ⟨by decide, by simp [Step.vertices, Step.of]⟩
  · refine ⟨by decide, ?_⟩
    simpa [Step.hasValue, Step.of] using ⟨htext "name", .predicate .equal (.scalar rfl)⟩
  · refine ⟨by decide, ?_⟩
    have hchild : (Argument.child [.values "age"]).IsPlain :=
      .child (by decide) (by simpa [Step.values, Step.of] using htext "age")
    simpa [Step.not, Step.of] using hchild

/-- Taken step by step, it has the same text and is the same. -/
theorem People.unquoted_of_text :
    ((Traversal.start (some "g")).append [.vertices]).append
      [.hasValue "name" .equal (.text "')"), .not [.values "age"]] = unquoted :=
  render_injective isPlain_unquoted isPlain_unquoted rfl (by decide)

end GraphSelect
