import GraphSelect.Number.Double
import GraphSelect.Proofs.Numbers
import GraphSelect.Query.Token
import Mathlib.Data.List.TakeWhile

/-!
The numbers in a text.

A token of a number is taken from a text by its characters, and only then read as the number that
it spells. What is taken for a number always spells one: digits with a point among them or not, and
a power of ten behind them or not.
-/

namespace GraphSelect

open Text

/-- Whether a token can be read as what its terminal says. Only numbers could fail to be. -/
def Token.IsReadable (t : Token) : Prop :=
  match t.terminal with
  | .integer => int? t.text = some (natOfDigits t.text : Int)
  | .decimal => t.text.contains '.' = true ∧ (Decimal.read? (String.ofList t.text)).isSome = true
  | .approximate => (Double.read? (String.ofList t.text)).isSome = true
  | _ => True

/-! ### Digits, points and powers -/

/-- What stands before the power of ten of a number: digits and perhaps a point, and at least one
digit. -/
inductive IsMantissa : List Char → Prop
  | whole {cs : List Char} (hcs : ∀ c ∈ cs, isDigit c = true) (hne : cs ≠ []) : IsMantissa cs
  | pointed {cs ds : List Char} (hcs : ∀ c ∈ cs, isDigit c = true)
      (hds : ∀ d ∈ ds, isDigit d = true) (hne : cs ≠ [] ∨ ds ≠ []) : IsMantissa (cs ++ '.' :: ds)

/-- The sign of a power of ten, if it is written. -/
inductive IsPowerSign : List Char → Prop
  | none : IsPowerSign []
  | plus : IsPowerSign ['+']
  | minus : IsPowerSign ['-']

/-- What may stand behind a mantissa: nothing, or a power of ten. -/
inductive IsPower : List Char → Prop
  | none : IsPower []
  | power {e : Char} {sign ds : List Char} (he : e = 'e' ∨ e = 'E') (hsign : IsPowerSign sign)
      (hds : ∀ d ∈ ds, isDigit d = true) (hne : ds ≠ []) : IsPower (e :: (sign ++ ds))

lemma isDigit_of_mem_takeWhile (cs : List Char) : ∀ c ∈ cs.takeWhile isDigit, isDigit c = true :=
  fun _ => List.mem_takeWhile_imp

lemma isMantissa_mantissa {cs : List Char} (h : (Terminal.mantissa cs).any isDigit = true) :
    IsMantissa (Terminal.mantissa cs) := by
  unfold Terminal.mantissa at h ⊢
  split at h
  · next r _ =>
    refine .pointed (isDigit_of_mem_takeWhile cs) (isDigit_of_mem_takeWhile r) ?_
    by_contra! hnone
    simp [hnone.1, hnone.2, show isDigit '.' = false by decide] at h
  · rw [List.append_nil] at h ⊢
    refine .whole (isDigit_of_mem_takeWhile cs) ?_
    rintro hnone
    simp [hnone] at h

lemma isPower_power? {cs p : List Char} {e : Char} (he : e = 'e' ∨ e = 'E')
    (h : Terminal.power? cs = some p) : IsPower (e :: p) := by
  unfold Terminal.power? at h
  simp only [Option.ite_none_left_eq_some, Option.some.injEq, List.isEmpty_iff] at h
  obtain ⟨hne, rfl⟩ := h
  refine .power he ?_ (isDigit_of_mem_takeWhile _) hne
  split
  · exact .plus
  · exact .minus
  · exact .none

/-! ### Reading them -/

variable {m p cs : List Char}

lemma isDecimalChar_of_digits (h : ∀ c ∈ cs, isDigit c = true) :
    ∀ c ∈ cs, Decimal.isDecimalChar c = true :=
  fun c hc => by simp [Decimal.isDecimalChar, h c hc]

lemma IsMantissa.isDecimalChar (h : IsMantissa m) : ∀ c ∈ m, Decimal.isDecimalChar c = true := by
  cases h with
  | whole hcs => exact isDecimalChar_of_digits hcs
  | pointed hcs hds =>
    exact List.forall_mem_append.2 ⟨isDecimalChar_of_digits hcs,
      List.forall_mem_cons.2 ⟨by decide, isDecimalChar_of_digits hds⟩⟩

/-- The characters of a number are neither blank nor do they group digits. -/
lemma IsMantissa.plain (h : IsMantissa m) : ∀ c ∈ m, isBlank c = false ∧ c ≠ '_' :=
  fun c hc => Decimal.plain_of_isDecimalChar (h.isDecimalChar c hc)

lemma IsPower.plain (h : IsPower p) : ∀ c ∈ p, isBlank c = false ∧ c ≠ '_' := by
  cases h with
  | none => simp
  | power he hsign hds =>
    refine List.forall_mem_cons.2 ⟨by rcases he with rfl | rfl <;> decide,
      List.forall_mem_append.2 ⟨?_, fun c hc => ?_⟩⟩
    · cases hsign <;> decide
    · exact Decimal.plain_of_isDecimalChar (isDecimalChar_of_digits hds c hc)

/-- A mantissa begins with a digit or a point, and so with no sign. -/
lemma IsMantissa.splitSign_eq (h : IsMantissa m) (p : List Char) :
    splitSign (m ++ p) = (false, m ++ p) := by
  have hfirst : ∀ c ∈ m.head?, isDigit c = true ∨ c = '.' := by
    cases h with
    | whole hcs => exact fun c hc => .inl (hcs c (List.mem_of_mem_head? hc))
    | @pointed cs ds hcs _ _ =>
      cases cs with
      | nil => simp
      | cons c cs => simpa using .inl (hcs c List.mem_cons_self)
  have hne : m ≠ [] := by cases h <;> simp_all
  obtain ⟨c, cs, rfl⟩ := List.exists_cons_of_ne_nil hne
  have hc : isDigit c = true ∨ c = '.' := hfirst c rfl
  unfold splitSign
  split
  · next h =>
    obtain rfl := (List.cons.inj h).1
    exact absurd hc (by decide)
  · next h =>
    obtain rfl := (List.cons.inj h).1
    exact absurd hc (by decide)
  · rfl

lemma IsPower.head?_ne (h : IsPower p) : ∀ c ∈ p.head?, isDigit c = false ∧ c ≠ '.' := by
  cases h with
  | none => simp
  | power he =>
    simp only [List.head?_cons, Option.mem_some_iff, forall_eq']
    rcases he with rfl | rfl <;> decide

/-- A sign that is written or not is split from the digits behind it. -/
lemma IsPowerSign.splitSign_snd {sign ds : List Char} (hsign : IsPowerSign sign)
    (hds : ∀ d ∈ ds, isDigit d = true) : (splitSign (sign ++ ds)).2 = ds := by
  cases hsign with
  | none => simp [splitSign_of_digits hds]
  | plus | minus => rfl

/-- A number is split into its parts. -/
lemma IsMantissa.isSome_parts? (hm : IsMantissa m) (hp : IsPower p) :
    (Decimal.parts? (m ++ p)).isSome = true := by
  have hpoint (r : List Char) : ∀ c ∈ ('.' :: r).head?, isDigit c = false := by
    simp only [List.head?_cons, Option.mem_some_iff, forall_eq']
    decide
  have hend : ∀ c ∈ p.head?, isDigit c = false := fun c hc => (hp.head?_ne c hc).1
  cases hm with
  | @whole cs hcs hne =>
    obtain ⟨htake, hdrop⟩ := Text.span_append hcs hend
    have hnopoint : ∀ r, p ≠ '.' :: r := by
      rintro r rfl
      exact (hp.head?_ne '.' rfl).2 rfl
    rw [Decimal.parts?, htake, hdrop]
    dsimp only
    split
    · next r => exact absurd rfl (hnopoint r)
    · cases hp with
      | none => simp [hne]
      | power he hsign hexp hne' => simpa [hne, he, hsign.splitSign_snd hexp, hne'] using hexp
  | @pointed cs ds hcs hds hne =>
    have hsome : (cs.isEmpty && ds.isEmpty) = false := by
      rcases hne with hne | hne <;> simp [hne]
    rw [List.append_assoc, List.cons_append]
    obtain ⟨htake, hdrop⟩ := Text.span_append hcs (hpoint (ds ++ p))
    obtain ⟨htake', hdrop'⟩ := Text.span_append hds hend
    rw [Decimal.parts?, htake, hdrop]
    simp only [htake', hdrop', hsome]
    cases hp with
    | none => simp
    | power he hsign hexp hne' => simpa [he, hsign.splitSign_snd hexp, hne'] using hexp

lemma IsMantissa.isSome_decimal (hm : IsMantissa m) :
    (Decimal.read? (String.ofList m)).isSome = true := by
  obtain ⟨parts, hparts⟩ := Option.isSome_iff_exists.1 (hm.isSome_parts? .none)
  have hsign := hm.splitSign_eq []
  rw [List.append_nil] at hparts hsign
  simp [Decimal.read?, Decimal.bare_eq_self hm.isDecimalChar, hsign, hparts]

lemma IsMantissa.isSome_double (hm : IsMantissa m) (hp : IsPower p) :
    (Double.read? (String.ofList (m ++ p))).isSome = true := by
  obtain ⟨parts, hparts⟩ := Option.isSome_iff_exists.1 (hm.isSome_parts? hp)
  have hchars := List.forall_mem_append.2 ⟨hm.plain, hp.plain⟩
  simp [Double.read?, bare?_eq_self hchars, Double.ofChars?, hm.splitSign_eq p, hparts]

/-! ### Tokens -/

namespace Terminal

variable {cs w : List Char}

lemma digits_of_match? (h : match? .integer cs = some w) :
    w = cs.takeWhile isDigit ∧ w ≠ [] ∧ ∀ c ∈ w, isDigit c = true := by
  simp only [match?, integer?, Option.ite_none_left_eq_some, List.isEmpty_iff,
    Option.some.injEq] at h
  obtain ⟨hne, rfl⟩ := h
  exact ⟨rfl, hne, isDigit_of_mem_takeWhile cs⟩

lemma mantissa_of_match? (h : match? .decimal cs = some w) :
    w = mantissa cs ∧ IsMantissa w ∧ '.' ∈ w := by
  simp only [match?, decimal?, Option.ite_none_right_eq_some, Bool.and_eq_true,
    List.contains_iff_mem, Option.some.injEq] at h
  obtain ⟨⟨hm, hpoint⟩, rfl⟩ := h
  exact ⟨rfl, isMantissa_mantissa hm, hpoint⟩

lemma exists_of_match? (h : match? .approximate cs = some w) :
    ∃ m p, IsMantissa m ∧ IsPower p ∧ w = m ++ p := by
  simp only [match?, approximate?, Option.ite_none_right_eq_some] at h
  obtain ⟨hm, h⟩ := h
  split at h
  · rw [Option.ite_none_right_eq_some] at h
    obtain ⟨he, h⟩ := h
    obtain ⟨p, hp, rfl⟩ := Option.map_eq_some_iff.1 h
    exact ⟨_, _, isMantissa_mantissa hm, isPower_power? he hp, rfl⟩
  · cases h

end Terminal

/-- What a terminal matches can be read as what the terminal says. -/
lemma isReadable_of_match? {t : Terminal} {cs text : List Char} (h : t.match? cs = some text) :
    Token.IsReadable ⟨t, text⟩ := by
  cases t with
  | approximate =>
    obtain ⟨m, p, hm, hp, rfl⟩ := Terminal.exists_of_match? h
    exact hm.isSome_double hp
  | decimal =>
    obtain ⟨-, hm, hpoint⟩ := Terminal.mantissa_of_match? h
    exact ⟨List.contains_iff_mem.2 hpoint, hm.isSome_decimal⟩
  | integer =>
    obtain ⟨-, hne, hdigits⟩ := Terminal.digits_of_match? h
    exact int?_of_digits hdigits hne
  | _ => trivial

/-- Only names are taken for something else than what they match, and that is no number. -/
lemma Token.IsReadable.classify {t : Token} (h : t.IsReadable) (expected : List Terminal) :
    (t.classify expected).IsReadable := by
  unfold Token.classify
  split
  · split
    · trivial
    · exact h
  · exact h

/-- Every token of a text can be read as what its terminal says. -/
theorem isReadable_of_first? {expected : List Terminal} {cs : List Char} {t : Token}
    (h : Token.first? expected cs = some t) : t.IsReadable := by
  obtain ⟨u, hu, rfl⟩ := Option.map_eq_some_iff.1 h
  obtain ⟨terminal, -, hmatch⟩ := List.exists_of_findSome?_eq_some hu
  obtain ⟨text, htext, rfl⟩ := Option.map_eq_some_iff.1 hmatch
  exact (isReadable_of_match? htext).classify expected

end GraphSelect
