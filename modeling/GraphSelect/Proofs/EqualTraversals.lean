import GraphSelect.Proofs.Doubles
import GraphSelect.Proofs.UniqueReading
import GraphSelect.Traversal.Drafts
import Mathlib.Data.List.Forall2

/-!
The texts of traversals that count as the same.

Constants are compared loosely, so a traversal over the number one counts as the same as one over
true, and 1.50 as the same as 1.5, while their texts differ. In everything else traversals that
count as the same agree, and the text of a constant shows its kind and all of its digits. So they
have the same text only if they are the same throughout. A constant that both hold is one constant,
with one text, even where it is not a number. Going on with the same steps, and being used as
arguments, they stay the same in the loose sense.
-/

namespace GraphSelect

open Text

/-! ### Constants -/

namespace Scalar

/-- Doubles in the form that doubles have. -/
def IsCanonical : Scalar → Prop
  | .double x => x.IsCanonical
  | _ => True

/-- The constants that are compared as numbers. -/
def isNumeric : Scalar → Bool
  | .bool _ | .int _ | .decimal _ | .double _ => true
  | .null | .text _ | .chars _ => false

/-- How the text of a number ends shows its kind. -/
def EndsLike : Scalar → Char → Prop
  | .bool _, c => c = 'e'
  | .int _, c => c.isDigit = true
  | .decimal _, c => c = 'G'
  | .double _, c => c = 'd'
  | _, _ => False

variable {c d : Scalar}

lemma exists_endsLike (h : c.isNumeric = true) :
    ∃ cs last, c.rendered.toList = cs ++ [last] ∧ c.EndsLike last := by
  cases c with
  | bool b =>
    cases b with
    | true => exact ⟨"tru".toList, 'e', rfl, rfl⟩
    | false => exact ⟨"fals".toList, 'e', rfl, rfl⟩
  | int n =>
    obtain ⟨cs, last, h⟩ := List.eq_nil_or_concat _ |>.resolve_left (digitsOf_ne_nil n.natAbs)
    refine ⟨(if n < 0 then ['-'] else []) ++ cs, last, by simp [rendered, ofInt, h], ?_⟩
    exact charIsDigit_of_mem_digitsOf (n := n.natAbs) (by simp [h])
  | decimal d => exact ⟨d.chars, 'G', by simp [rendered, Decimal.text], rfl⟩
  | double x => exact ⟨x.chars, 'd', by simp [rendered, Double.text], rfl⟩
  | null | text | chars => cases h

lemma isMark_rendered (h : c.isNumeric = true) : ∀ ch ∈ c.rendered.toList, isMark ch = false := by
  have hnumber {cs : List Char} (hcs : ∀ ch ∈ cs, isNumberChar ch = true) :
      ∀ ch ∈ cs, isMark ch = false := by
    have hmarks : ∀ ch ∈ ['(', ')', ',', '\''], isNumberChar ch = false := by decide
    intro ch hch
    cases hm : isMark ch with
    | false => rfl
    | true =>
      have := hmarks ch (List.contains_iff_mem.1 hm)
      simp [hcs ch hch] at this
  cases c with
  | bool b => cases b <;> decide
  | int n => exact hnumber (isNumberChar_ofInt n)
  | decimal d =>
    rw [rendered, String.toList_append, Decimal.text, String.toList_ofList]
    exact List.forall_mem_append.2 ⟨hnumber d.isNumberChar_chars, by decide⟩
  | double x =>
    rw [rendered, String.toList_append, Double.text, String.toList_ofList]
    exact List.forall_mem_append.2 ⟨hnumber x.isNumberChar_chars, by decide⟩
  | null | text | chars => cases h

/-- Constants that count as the same are numbers, or they are the same. -/
lemma isNumeric_of_same (h : c.same d = true) :
    c = d ∧ c.isNumeric = false ∨ c.isNumeric = true ∧ d.isNumeric = true := by
  cases c <;> cases d <;> simp_all [same, quantity?, isNumeric]

lemma decimal_eq_of_text {d e : Decimal} (h : (decimal d).same (.decimal e) = true)
    (ht : d.text = e.text) : d = e := by
  cases d with
  | finite s c k =>
    cases e with
    | finite s' c' k' =>
      have hread := congrArg Decimal.read? ht
      rw [Decimal.read?_text, Decimal.read?_text] at hread
      exact Option.some.inj hread
    | infinite s' =>
      cases s' <;> simp [same, quantity?, Quantity.ofDecimal?, Quantity.equal, Quantity.order] at h
    | nan => simp [same, quantity?, Quantity.ofDecimal?] at h
  | infinite s =>
    cases e with
    | finite s' c' k' =>
      cases s <;> simp [same, quantity?, Quantity.ofDecimal?, Quantity.equal, Quantity.order] at h
    | infinite s' => cases s <;> cases s' <;> first | rfl | exact absurd ht (by decide)
    | nan => simp [same, quantity?, Quantity.ofDecimal?] at h
  | nan => simp [same, quantity?, Quantity.ofDecimal?] at h

/-- Constants that count as the same and have the same text are the same. -/
lemma eq_of_rendered (hc : c.IsCanonical) (hd : d.IsCanonical) (h : c.same d = true)
    (ht : c.rendered = d.rendered) : c = d := by
  rcases isNumeric_of_same h with ⟨heq, -⟩ | ⟨hnumeric, hnumeric'⟩
  · exact heq
  obtain ⟨cs, last, hcs, hlast⟩ := exists_endsLike hnumeric
  obtain ⟨ds, last', hds, hlast'⟩ := exists_endsLike hnumeric'
  obtain rfl : last = last' := by
    rw [ht, hds] at hcs
    simpa using (List.append_inj_right' hcs rfl).symm
  have hdigit : ∀ ch ∈ ['e', 'G', 'd'], ch.isDigit = false := by decide
  cases c <;> cases d <;> simp only [EndsLike] at hlast hlast'
  case bool.bool b b' => cases b <;> cases b' <;> first | rfl | exact absurd ht (by decide)
  case int.int n n' => rw [ofInt_injective ht]
  case decimal.decimal d d' => rw [decimal_eq_of_text h ((String.append_left_inj "G").1 ht)]
  case double.double x x' =>
    have htext : x.text = x'.text := (String.append_left_inj "d").1 ht
    rcases Double.eq_or_zero_of_same hc hd h with rfl | ⟨s, s', rfl, rfl⟩
    · rfl
    · rw [Double.sign_of_text_zero htext]
  all_goals simp_all

/-- The text of a constant ends where it must. -/
lemma told (hc : c.IsCanonical) (hd : d.IsCanonical) (h : c.same d = true) {r r' : List Char}
    (hr : Breaks r) (hr' : Breaks r') (ht : c.rendered.toList ++ r = d.rendered.toList ++ r') :
    c = d ∧ r = r' := by
  rcases isNumeric_of_same h with ⟨rfl, -⟩ | ⟨hnumeric, hnumeric'⟩
  · exact ⟨rfl, List.append_cancel_left ht⟩
  · obtain ⟨hword, hrest⟩ :=
      word_append (isMark_rendered hnumeric) (isMark_rendered hnumeric') hr hr' ht
    exact ⟨eq_of_rendered hc hd h (String.toList_injective hword), hrest⟩

end Scalar

/-! ### What is held -/

namespace Held

/-- Constants, orders, sides, comparisons and traversals, without lists at any depth. -/
inductive IsUnlisted : Held → Prop
  | scalar {c : HeldScalar} (h : c.value.IsCanonical) : IsUnlisted (.scalar c)
  | order (o : SortOrder) : IsUnlisted (.order o)
  | side (d : EntrySide) : IsUnlisted (.side d)
  | predicate (c : Comparison) {a : Held} (h : IsUnlisted a) : IsUnlisted (.predicate c a)
  | traversal (source : Option String) {ss : List HeldStep}
      (h : ∀ s ∈ ss, ∀ a ∈ s.arguments, IsUnlisted a) : IsUnlisted (.traversal ⟨source, ss⟩)

/-- What counts as the same as this shows its text only if it holds the same argument. -/
def StandsOut (a : Held) : Prop :=
  ∀ b : Held, b.IsUnlisted → a.same b = true → ∀ r r', Breaks r → Breaks r' →
    a.argument.render.toList ++ r = b.argument.render.toList ++ r' →
      a.argument = b.argument ∧ r = r'

lemma sameEach_iff {as bs : List Held} :
    sameEach as bs = true ↔ List.Forall₂ (fun a b => a.same b = true) as bs := by
  induction as generalizing bs with
  | nil => cases bs <;> simp [sameEach]
  | cons a as ih => cases bs <;> simp [sameEach, ih]

lemma sameSteps_iff {ss ts : List HeldStep} :
    sameSteps ss ts = true ↔ List.Forall₂ (fun s t => s.same t = true) ss ts := by
  induction ss generalizing ts with
  | nil => cases ts <;> simp [sameSteps]
  | cons s ss ih => cases ts <;> simp [sameSteps, HeldStep.same, ih]

section

variable {r r' : List Char}

lemma closed_of_same {as bs : List Held} (has : ∀ a ∈ as, a.StandsOut)
    (hbs : ∀ b ∈ bs, b.IsUnlisted) (h : List.Forall₂ (fun a b => a.same b = true) as bs)
    (ht : closed ((arguments as).map (·.render.toList)) ++ r =
      closed ((arguments bs).map (·.render.toList)) ++ r') :
    arguments as = arguments bs ∧ r = r' := by
  have hbreaks (ts : List (List Char)) (r : List Char) :
      Breaks ((if ts.isEmpty then [')'] else ',' :: ' ' :: closed ts) ++ r) := by
    cases ts <;> exact breaks_cons (by decide) _
  induction h with
  | nil => exact ⟨rfl, List.append_cancel_left ht⟩
  | @cons a b as bs hsame hrest ih =>
    obtain ⟨ha, has'⟩ := List.forall_mem_cons.1 has
    obtain ⟨hb, hbs'⟩ := List.forall_mem_cons.1 hbs
    rw [arguments, arguments, List.map_cons, List.map_cons, closed_cons, closed_cons,
      List.append_assoc, List.append_assoc] at ht
    obtain ⟨hab, hmore⟩ := ha b hb hsame _ _ (hbreaks _ _) (hbreaks _ _) ht
    rw [arguments, arguments, hab]
    cases hrest with
    | nil => exact ⟨rfl, List.append_cancel_left hmore⟩
    | cons =>
      obtain ⟨hrest, rfl⟩ := ih has' hbs' (List.cons.inj (List.cons.inj hmore).2).2
      exact ⟨by rw [hrest], rfl⟩

/-- Steps that count as the same have the same text only if they hold the same arguments. -/
lemma chars_of_same {ss ts : List HeldStep} (hss : ∀ s ∈ ss, ∀ a ∈ s.arguments, a.StandsOut)
    (hts : ∀ t ∈ ts, ∀ a ∈ t.arguments, a.IsUnlisted)
    (h : List.Forall₂ (fun s t => s.same t = true) ss ts)
    (ht : Steps.chars (steps ss) ++ r = Steps.chars (steps ts) ++ r') :
    steps ss = steps ts ∧ r = r' := by
  have hcons (s : Step) (v : Steps) (r : List Char) : Steps.chars (s :: v) ++ r =
      '.' :: (s.name.toList ++
        '(' :: (closed (s.arguments.map (·.render.toList)) ++ (Steps.chars v ++ r))) := by
    simp [Steps.chars]
  induction h with
  | nil => exact ⟨rfl, ht⟩
  | @cons s t ss ts hsame _ ih =>
    obtain ⟨hs, hss'⟩ := List.forall_mem_cons.1 hss
    obtain ⟨ht', hts'⟩ := List.forall_mem_cons.1 hts
    obtain ⟨name, as⟩ := s
    obtain ⟨name', bs⟩ := t
    simp only [HeldStep.same, Bool.and_eq_true, decide_eq_true_eq] at hsame
    obtain ⟨rfl, hsame⟩ := hsame
    rw [steps, steps, hcons, hcons] at ht
    obtain ⟨hargs, hrest⟩ := closed_of_same hs ht' (sameEach_iff.1 hsame) (by simpa using ht)
    obtain ⟨hsteps, rfl⟩ := ih hss' hts' hrest
    exact ⟨by rw [steps, steps, hargs, hsteps], rfl⟩

lemma render_of_same {source : Option String} {ss ts : List HeldStep}
    (hss : ∀ s ∈ ss, ∀ a ∈ s.arguments, a.StandsOut)
    (hts : ∀ t ∈ ts, ∀ a ∈ t.arguments, a.IsUnlisted) (h : sameSteps ss ts = true)
    (ht : (Traversal.render ⟨source, steps ss⟩).toList ++ r =
      (Traversal.render ⟨source, steps ts⟩).toList ++ r') : steps ss = steps ts ∧ r = r' := by
  have hsame := sameSteps_iff.1 h
  cases hsame with
  | nil => exact ⟨rfl, List.append_cancel_left ht⟩
  | cons =>
    unfold Traversal.render at ht
    rw [toList_traversalText _ _ (.inr (by simp [steps])),
      toList_traversalText _ _ (.inr (by simp [steps])), List.append_assoc,
      List.append_assoc] at ht
    exact chars_of_same hss hts (sameSteps_iff.1 h) (List.append_cancel_left ht)

end

theorem IsUnlisted.standsOut {a : Held} (h : a.IsUnlisted) : a.StandsOut := by
  induction h with
  | @scalar c hc =>
    intro b hb hsame r r' hr hr' ht
    cases hb with
    | @scalar d hd =>
      simp only [same, HeldScalar.same, Bool.or_eq_true, decide_eq_true_eq] at hsame
      rcases hsame with rfl | hsame
      · exact ⟨rfl, List.append_cancel_left ht⟩
      · obtain ⟨hvalue, hrest⟩ := Scalar.told hc hd hsame hr hr' ht
        exact ⟨congrArg Argument.scalar hvalue, hrest⟩
    | _ => cases hsame
  | order o =>
    intro b hb hsame r r' hr hr' ht
    cases hb with
    | order p =>
      obtain rfl : o = p := by simpa [same] using hsame
      exact ⟨rfl, List.append_cancel_left ht⟩
    | _ => cases hsame
  | side d =>
    intro b hb hsame r r' hr hr' ht
    cases hb with
    | side d' =>
      obtain rfl : d = d' := by simpa [same] using hsame
      exact ⟨rfl, List.append_cancel_left ht⟩
    | _ => cases hsame
  | @predicate c a _ ih =>
    intro b hb hsame r r' hr hr' ht
    cases hb with
    | @predicate c' b hb =>
      simp only [same, Bool.and_eq_true, decide_eq_true_eq] at hsame
      obtain ⟨rfl, hsame⟩ := hsame
      have htext (a : Argument) (r : List Char) : (Argument.predicate c a).render.toList ++ r =
          c.predicateName.toList ++ '(' :: (a.render.toList ++ ')' :: r) := by
        simp [Argument.render]
      rw [argument, argument, htext, htext] at ht
      obtain ⟨hoperand, hrest⟩ := ih b hb hsame _ _ (breaks_cons (by decide) _)
        (breaks_cons (by decide) _) (List.cons.inj (List.append_cancel_left ht)).2
      exact ⟨congrArg (Argument.predicate c) hoperand, (List.cons.inj hrest).2⟩
    | _ => cases hsame
  | @traversal source ss _ ih =>
    intro b hb hsame r r' hr hr' ht
    cases hb with
    | @traversal source' ts hts =>
      simp only [same, Bool.and_eq_true, decide_eq_true_eq] at hsame
      obtain ⟨rfl, hsame⟩ := hsame
      rw [argument, argument, Argument.render_traversal, Argument.render_traversal] at ht
      obtain ⟨hsteps, hrest⟩ := render_of_same ih hts hsame ht
      exact ⟨by rw [argument, argument, hsteps], hrest⟩
    | _ => cases hsame

end Held

/-! ### Traversals under construction -/

namespace Draft

/-- All arguments of a traversal are without lists. -/
def IsUnlisted (d : Draft) : Prop :=
  ∀ s ∈ d.steps, ∀ a ∈ s.arguments, a.IsUnlisted

variable {d e : Draft}

/-- Traversals that count as the same have the same text only if they are the same throughout. -/
lemma render_eq_iff_of_same (hd : d.IsUnlisted) (he : e.IsUnlisted) (h : d.same e = true) :
    d.traversal.render = e.traversal.render ↔ d.traversal = e.traversal := by
  obtain ⟨source, ss⟩ := d
  obtain ⟨source', ts⟩ := e
  simp only [same, Bool.and_eq_true, decide_eq_true_eq] at h
  obtain ⟨rfl, h⟩ := h
  refine ⟨fun ht => ?_, congrArg Traversal.render⟩
  have htext : (Traversal.render ⟨source, Held.steps ss⟩).toList ++ [] =
      (Traversal.render ⟨source, Held.steps ts⟩).toList ++ [] := congrArg (·.toList ++ []) ht
  obtain ⟨hsteps, -⟩ :=
    Held.render_of_same (fun s hs a ha => (hd s hs a ha).standsOut) he h htext
  rw [traversal, traversal, hsteps]

lemma same_append {ss ts : List HeldStep} (h : d.same e = true)
    (h' : Held.sameSteps ss ts = true) : (d.append ss).same (e.append ts) = true := by
  simp only [same, append, Bool.and_eq_true, Held.sameSteps_iff] at h h' ⊢
  exact ⟨h.1, List.rel_append h.2 h'⟩

lemma same_argument (h : d.same e = true) (name : String) {as bs as' bs' : List Held}
    (has : Held.sameEach as bs = true) (has' : Held.sameEach as' bs' = true) :
    HeldStep.same ⟨name, as ++ .traversal d :: as'⟩ ⟨name, bs ++ .traversal e :: bs'⟩ = true := by
  have hargument : (Held.traversal d).same (.traversal e) = true := h
  simp only [HeldStep.same, Bool.and_eq_true, decide_true, true_and, Held.sameEach_iff]
    at has has' ⊢
  exact List.rel_append has (.cons hargument has')

end Draft

/-- **Traversals that count as the same have the same text exactly if they are the same**: if in all
places the constants are of one kind, and numbers have the same digits. This holds whether they were
built apart, over constants of their own or over constants that both hold, or one was made of the
other. They still count as the same if both go on with the same step, or with traversals that count
as the same, and if they become arguments of steps that are otherwise the same. -/
theorem same_traversals :
    (∀ d e : Draft, d.IsUnlisted → e.IsUnlisted → d.same e = true →
      (d.traversal.render = e.traversal.render ↔ d.traversal = e.traversal)) ∧
    (∀ (d e : Draft) (s : HeldStep), d.same e = true → (d.append [s]).same (e.append [s]) = true) ∧
    (∀ d e d' e' : Draft, d.same e = true → d'.same e' = true →
      (d.append d'.steps).same (e.append e'.steps) = true) ∧
    ∀ (d e : Draft) (name : String) (as bs as' bs' : List Held), d.same e = true →
      Held.sameEach as bs = true → Held.sameEach as' bs' = true →
      HeldStep.same ⟨name, as ++ .traversal d :: as'⟩ ⟨name, bs ++ .traversal e :: bs'⟩ = true := by
  refine ⟨fun d e hd he h => Draft.render_eq_iff_of_same hd he h,
    fun d e s h => Draft.same_append h (Held.sameSteps_self [s]), fun d e d' e' h h' => ?_,
    fun d e name as bs as' bs' h has has' => Draft.same_argument h name has has'⟩
  simp only [Draft.same, Bool.and_eq_true] at h'
  exact Draft.same_append h h'.2

namespace Draft

/-- A traversal that gives one constant after the other. -/
def constantly (cs : List HeldScalar) : Draft :=
  ⟨none, cs.map fun c => ⟨"constant", [.scalar c]⟩⟩

lemma isUnlisted_constantly {cs : List HeldScalar} (h : ∀ c ∈ cs, c.value.IsCanonical) :
    (constantly cs).IsUnlisted := by
  intro s hs a ha
  obtain ⟨c, hc, rfl⟩ := List.mem_map.1 hs
  obtain rfl := List.mem_singleton.1 ha
  exact .scalar (h c hc)

/-- 1.50 and 1.5 count as the same, on their own, one after the other, and as children, and have
different texts. Two constants that are not numbers differ, while one that is held in two places
counts as the same, also if it is taken into both as one more step. -/
theorem constantly_half :
    (let d := constantly [⟨0, .decimal (.finite false 150 (-2))⟩]
     let e := constantly [⟨1, .decimal (.finite false 15 (-1))⟩]
     d.same e = true ∧ d.traversal.render ≠ e.traversal.render ∧
       (d.append d.steps).same (e.append e.steps) = true ∧
       HeldStep.same ⟨"where", [.traversal d]⟩ ⟨"where", [.traversal e]⟩ = true) ∧
      (let nan : HeldScalar := ⟨0, .double .nan⟩
       let d := constantly [nan, ⟨1, .int 1⟩]
       let e := constantly [nan, ⟨2, .int 1⟩]
       (constantly [nan]).same (constantly [⟨1, .double .nan⟩]) = false ∧ d.same e = true ∧
         d.traversal.render = e.traversal.render ∧
         (d.append [⟨"constant", [.scalar nan]⟩]).same (e.append [⟨"constant", [.scalar nan]⟩]) =
           true) := by
  obtain ⟨htexts, hstep, hextend, hargument⟩ := same_traversals
  dsimp only
  constructor
  · have hsame : (constantly [⟨0, .decimal (.finite false 150 (-2))⟩]).same
        (constantly [⟨1, .decimal (.finite false 15 (-1))⟩]) = true := by decide
    have hdecimal (n : Nat) (d : Decimal) : (constantly [⟨n, .decimal d⟩]).IsUnlisted :=
      isUnlisted_constantly (by simp [Scalar.IsCanonical])
    refine ⟨hsame, fun h => ?_, hextend _ _ _ _ hsame hsame,
      hargument _ _ "where" [] [] [] [] hsame rfl rfl⟩
    exact absurd ((htexts _ _ (hdecimal _ _) (hdecimal _ _) hsame).1 h)
      (by simp [constantly, Draft.traversal, Held.steps, Held.arguments, Held.argument])
  · have hsame : (constantly [⟨0, .double .nan⟩, ⟨1, .int 1⟩]).same
        (constantly [⟨0, .double .nan⟩, ⟨2, .int 1⟩]) = true := by decide
    have hunlisted (n : Nat) : (constantly [⟨0, .double .nan⟩, ⟨n, .int 1⟩]).IsUnlisted :=
      isUnlisted_constantly (by simp [Scalar.IsCanonical, Double.IsCanonical])
    exact ⟨by decide, hsame, (htexts _ _ (hunlisted _) (hunlisted _) hsame).2 rfl,
      hstep _ _ _ hsame⟩

/-- Traversals over one and over true count as the same and have different texts. -/
theorem constantly_one_true :
    (constantly [⟨0, .int 1⟩]).same (constantly [⟨1, .bool true⟩]) = true ∧
      (constantly [⟨0, .int 1⟩]).traversal.render ≠
        (constantly [⟨1, .bool true⟩]).traversal.render := by
  decide

end Draft

end GraphSelect
