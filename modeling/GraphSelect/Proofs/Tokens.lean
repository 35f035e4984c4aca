import GraphSelect.Proofs.Numbers
import GraphSelect.Query.Parser
import Mathlib.Data.List.TakeWhile

/-!
How the tokens of a text are told apart.

A terminal takes as much of a text as its class allows, and the first one that is expected and takes
anything wins. So a token is read as it was written if what stands behind it does not go on with its
class, and if no terminal that is tried before takes anything there. Most terminals differ in the
character they begin with. Keywords are tried after names and told from them by their letters; where
no names are expected, no keyword is expected beside another one that begins it.
-/

namespace GraphSelect

open Text

/-! ### Letters -/

/-- The letters that have one of `a` to `z` as their other case, without being one. -/
def strayLetters : List Char := ['\u017f', '\u212a', '\u0130', '\u0131']

lemma toNat_lt_of_isNameStart {c : Char} (h : isNameStart c = true) (hc : c ∉ strayLetters) :
    c.toNat < 128 := by
  simp only [strayLetters, List.mem_cons, not_or, List.not_mem_nil, not_false_eq_true,
    and_true] at hc
  obtain ⟨hs, hk, hi, hi'⟩ := hc
  have hfold : foldLetter c = c.toLower := by simp [foldLetter, hs, hk, hi, hi']
  simp only [isNameStart, hfold, Bool.or_eq_true, Bool.and_eq_true, decide_eq_true_eq] at h
  unfold Char.toLower at h
  split at h
  · next hup => exact Nat.lt_of_le_of_lt (UInt32.le_iff_toNat_le.1 hup.2) (by decide)
  · rcases h with ⟨-, hle⟩ | rfl
    · exact Nat.lt_of_le_of_lt (UInt32.le_iff_toNat_le.1 hle) (by decide)
    · decide

lemma toNat_lt_of_isNameRest {c : Char} (h : isNameRest c = true) :
    c.toNat < 128 ∨ c ∈ strayLetters := by
  by_cases hc : c ∈ strayLetters
  · exact .inr hc
  · simp only [isNameRest, Bool.or_eq_true, Bool.and_eq_true, decide_eq_true_eq] at h
    rcases h with (h | ⟨-, hle⟩) | rfl
    · exact .inl (toNat_lt_of_isNameStart h hc)
    · exact .inl (Nat.lt_of_le_of_lt (UInt32.le_iff_toNat_le.1 hle) (by decide))
    · exact .inl (by decide)

/-- What holds of the characters of words is seen by going through them. -/
lemma forall_isNameRest {p : Char → Prop}
    (hascii : ∀ n < 128, isNameRest (Char.ofNat n) = true → p (Char.ofNat n))
    (hstray : ∀ c ∈ strayLetters, p c) {c : Char} (h : isNameRest c = true) : p c := by
  rcases toNat_lt_of_isNameRest h with hc | hc
  · have hp := hascii c.toNat hc
    rw [Char.ofNat_toNat] at hp
    exact hp h
  · exact hstray c hc

lemma isNameRest_of_isNameStart {c : Char} (h : isNameStart c = true) : isNameRest c = true := by
  simp [isNameRest, h]

lemma isGap_of_isNameRest {c : Char} (h : isNameRest c = true) : isGap c = false :=
  forall_isNameRest (p := fun c => isGap c = false) (by decide) (by decide) h

lemma isGap_of_isDecimalChar {c : Char} (h : Decimal.isDecimalChar c = true) :
    isGap c = false := by
  rw [← Bool.not_eq_true]
  intro hgap
  simp only [isGap, Bool.or_eq_true, decide_eq_true_eq] at hgap
  rcases hgap with (((rfl | rfl) | rfl) | rfl) | rfl <;> exact absurd h (by decide)

/-- A letter of a word in upper case is one letter, and the same one for keywords. -/
lemma exists_upperChar {c : Char} (h : isNameRest c = true) :
    ∃ d, upperChar c = [d] ∧ upperChar d = [d] ∧ foldLetter d = foldLetter c ∧
      isNameRest d = true ∧ (isNameStart c = true → isNameStart d = true) := by
  refine forall_isNameRest (p := fun c => ∃ d, upperChar c = [d] ∧ upperChar d = [d] ∧
    foldLetter d = foldLetter c ∧ isNameRest d = true ∧
    (isNameStart c = true → isNameStart d = true)) (fun n hn hrest => ?_) (fun c hc => ?_) h
  · refine ⟨(Char.ofNat n).toUpper, ?_⟩
    revert n
    decide
  · refine ⟨(upperChar c).headD c, ?_⟩
    revert c
    decide

/-! ### Words -/

/-- A word that is a name wherever names are expected. -/
def isPlainWord : List Char → Bool
  | c :: cs => isNameStart c && cs.all isNameRest && (keyword? (c :: cs)).isNone
  | [] => false

lemma isPlainWord_eq_true {w : List Char} (h : isPlainWord w = true) :
    (∃ c cs, w = c :: cs ∧ isNameStart c = true ∧ ∀ d ∈ cs, isNameRest d = true) ∧
      keyword? w = none := by
  cases w with
  | nil => simp [isPlainWord] at h
  | cons c cs =>
    simp only [isPlainWord, Bool.and_eq_true, List.all_eq_true, Option.isNone_iff_eq_none] at h
    exact ⟨⟨c, cs, rfl, h.1.1, h.1.2⟩, h.2⟩

lemma exists_upper {w : List Char} (h : ∀ c ∈ w, isNameRest c = true) :
    (w.flatMap upperChar).flatMap upperChar = w.flatMap upperChar ∧
      (w.flatMap upperChar).map foldLetter = w.map foldLetter ∧
      ∀ c ∈ w.flatMap upperChar, isNameRest c = true := by
  induction w with
  | nil => simp
  | cons c w ih =>
    obtain ⟨hc, hw⟩ := List.forall_mem_cons.1 h
    obtain ⟨d, hd, hagain, hfold, hrest, -⟩ := exists_upperChar hc
    obtain ⟨ihagain, ihfold, ihrest⟩ := ih hw
    simp only [List.flatMap_cons, hd, List.singleton_append, hagain, List.map_cons, hfold, ihagain,
      ihfold, List.forall_mem_cons]
    exact ⟨trivial, trivial, hrest, ihrest⟩

/-- A word in upper case is a word. -/
lemma isPlainWord_upper {s : String} (h : isPlainWord s.toList = true) :
    isPlainWord (upper s).toList = true := by
  obtain ⟨⟨c, cs, hs, hc, hcs⟩, hk⟩ := isPlainWord_eq_true h
  obtain ⟨d, hd, -, hfold, -, hstart⟩ := exists_upperChar (isNameRest_of_isNameStart hc)
  obtain ⟨-, hfolds, hrest⟩ := exists_upper hcs
  have hupper : (upper s).toList = d :: cs.flatMap upperChar := by
    simp [upper, hs, hd]
  have hkeyword : keyword? (d :: cs.flatMap upperChar) = none := by
    rw [← hk, hs, keyword?, keyword?, List.map_cons, List.map_cons, hfold, hfolds]
  rw [hupper, isPlainWord, hstart hc, hkeyword, List.all_eq_true.2 hrest]
  rfl

lemma forall_isNameRest_of_isPlainWord {w : List Char} (h : isPlainWord w = true) :
    ∀ c ∈ w, isNameRest c = true := by
  obtain ⟨⟨c, cs, rfl, hc, hcs⟩, -⟩ := isPlainWord_eq_true h
  exact List.forall_mem_cons.2 ⟨isNameRest_of_isNameStart hc, hcs⟩

lemma upper_upper {s : String} (h : isPlainWord s.toList = true) : upper (upper s) = upper s := by
  rw [upper, upper, String.toList_ofList, (exists_upper (forall_isNameRest_of_isPlainWord h)).1]

/-- No word is a keyword in upper case. -/
lemma upper_ne_keyword {s : String} (h : isPlainWord s.toList = true) {w : List Char}
    (hw : (keyword? w).isSome = true) : (upper s).toList ≠ w := by
  rintro rfl
  rw [(isPlainWord_eq_true (isPlainWord_upper h)).2] at hw
  cases hw

namespace Keyword

/-- A keyword as texts are printed. -/
def capitals (k : Keyword) : List Char := k.letters.map Char.toUpper

lemma map_foldLetter_capitals (k : Keyword) : k.capitals.map foldLetter = k.letters := by
  cases k <;> rfl

lemma keyword?_capitals (k : Keyword) : keyword? k.capitals = some k := by
  cases k <;> rfl

lemma exists_capitals (k : Keyword) :
    ∃ c cs, k.capitals = c :: cs ∧ isNameStart c ∧ ∀ d ∈ cs, isNameRest d := by
  cases k <;> exact ⟨_, _, rfl, by decide, by decide⟩

end Keyword

/-! ### What a terminal may begin with -/

namespace Terminal

/-- Whether what a terminal matches may begin with a character. -/
def begins (t : Terminal) (c : Char) : Bool :=
  match t with
  | .approximate | .decimal => isDigit c || c = '.'
  | .name => isNameStart c
  | .quotedName => c = '"'
  | .string => c = '\''
  | .integer => isDigit c
  | .sign s => s.chars.head? = some c
  | .keyword k => k.letters.head? = some (foldLetter c)

variable {t : Terminal} {c : Char} {cs w r : List Char}

lemma mantissa_eq_nil (hc : isDigit c = false) (hp : c ≠ '.') : mantissa (c :: cs) = [] := by
  simp [mantissa, hc, hp]

lemma head?_of_spelled? {same : Char → Char} {letters : List Char} (hne : letters ≠ [])
    (h : spelled? same letters (c :: cs) = some w) : letters.head? = some (same c) := by
  unfold spelled? at h
  rw [Option.ite_none_right_eq_some] at h
  cases letters with
  | nil => exact absurd rfl hne
  | cons d ds =>
    rw [List.length_cons, List.take_succ_cons, List.map_cons] at h
    rw [List.head?_cons, (List.cons.inj h.1).1]

lemma begins_of_match? (h : t.match? (c :: cs) = some w) : t.begins c = true := by
  by_contra hc
  cases t with
  | approximate =>
    simp only [begins, Bool.or_eq_true, decide_eq_true_eq, not_or, Bool.not_eq_true] at hc
    simp [match?, approximate?, mantissa_eq_nil hc.1 hc.2] at h
  | decimal =>
    simp only [begins, Bool.or_eq_true, decide_eq_true_eq, not_or, Bool.not_eq_true] at hc
    simp [match?, decimal?, mantissa_eq_nil hc.1 hc.2] at h
  | name => simp_all [begins, match?, name?]
  | quotedName => simp_all [begins, match?, quoted?]
  | string => simp_all [begins, match?, quoted?]
  | integer => simp_all [begins, match?, integer?]
  | sign s =>
    have hne : s.chars ≠ [] := by cases s <;> simp [Sign.chars]
    exact hc (by simpa [begins] using head?_of_spelled? hne h)
  | keyword k =>
    have hne : k.letters ≠ [] := by cases k <;> simp [Keyword.letters]
    exact hc (by simpa [begins] using head?_of_spelled? hne h)

lemma match?_eq_none (hc : t.begins c = false) : t.match? (c :: cs) = none := by
  rw [Option.eq_none_iff_forall_ne_some]
  intro w hw
  simp [begins_of_match? hw] at hc

lemma mem_all (t : Terminal) : t ∈ all := by
  rcases t with _ | _ | _ | _ | _ | _ | s | k
  case sign => cases s <;> decide
  case keyword => cases k <;> decide
  all_goals decide

/-- The terminals that are tried before another one. -/
def before (t : Terminal) : List Terminal := all.takeWhile (· != t)

lemma ne_of_mem_before {u : Terminal} (h : u ∈ t.before) : u ≠ t := by
  simpa using List.mem_takeWhile_imp h

lemma exists_all_eq (t : Terminal) : ∃ after, all = t.before ++ t :: after := by
  obtain ⟨before, after, hall, hnot⟩ := List.eq_append_cons_of_mem t.mem_all
  refine ⟨after, ?_⟩
  have hne : ∀ u ∈ before, (u != t) = true :=
    fun u hu => bne_iff_ne.2 fun (h : u = t) => hnot (h ▸ hu)
  have hbefore : t.before = before := by
    rw [Terminal.before, hall, List.takeWhile_append_of_pos hne]
    simp
  rw [hbefore, hall]

end Terminal

/-! ### The first token of a text -/

namespace Token

variable {expected : List Terminal} {t : Terminal} {c : Char} {cs w r : List Char}

/-- The first expected terminal that takes anything wins. -/
lemma first?_eq (ht : t ∈ expected) (hw : t.match? cs = some w)
    (hbefore : ∀ u ∈ t.before, u ∈ expected → u.match? cs = none) :
    first? expected cs = some (classify expected ⟨t, w⟩) := by
  obtain ⟨after, hall⟩ := t.exists_all_eq
  have hnone : ((t.before.filter expected.contains).findSome? fun u => (u.match? cs).map (⟨u, ·⟩)) =
      (none : Option Token) := by
    refine List.findSome?_eq_none_iff.2 fun u hu => ?_
    rw [List.mem_filter, List.contains_iff_mem] at hu
    simp [hbefore u hu.1 hu.2]
  rw [first?, hall, List.filter_append, List.filter_cons_of_pos (by simpa using ht),
    List.findSome?_append, hnone, Option.none_or, List.findSome?_cons, hw]
  rfl

/-- The first token is what its terminal takes, unless it is a name that spells a keyword. -/
lemma first?_eq_some {u : Token} (h : first? expected cs = some u) :
    u.terminal.match? cs = some u.text ∨ ∃ k, u.terminal = .keyword k := by
  obtain ⟨v, hv, rfl⟩ := Option.map_eq_some_iff.1 h
  obtain ⟨terminal, -, hmatch⟩ := List.exists_of_findSome?_eq_some hv
  obtain ⟨text, htext, rfl⟩ := Option.map_eq_some_iff.1 hmatch
  unfold classify
  split
  · split
    · exact .inr ⟨_, rfl⟩
    · exact .inl htext
  · exact .inl htext

/-- It wins also if those that are tried before begin with other characters. -/
lemma first?_eq_of_begins (ht : t ∈ expected) (hw : t.match? (c :: cs) = some w)
    (hbefore : ∀ u ∈ t.before, u ∈ expected → u.begins c = false) :
    first? expected (c :: cs) = some (classify expected ⟨t, w⟩) :=
  first?_eq ht hw fun u hu hin => Terminal.match?_eq_none (hbefore u hu hin)

lemma isDigit_of_isNameStart (h : isNameStart c = true) : isDigit c = false :=
  forall_isNameRest (p := fun c => isNameStart c = true → isDigit c = false) (by decide)
    (by decide) (isNameRest_of_isNameStart h) h

lemma not_begins_of_isNameStart (h : isNameStart c = true) (t : Terminal)
    (hname : t ≠ .name) (hkeyword : ∀ k, t ≠ .keyword k) : t.begins c = false := by
  have hsign : ∀ s ∈ Sign.all, Terminal.begins (.sign s) c = false :=
    forall_isNameRest (p := fun c => isNameStart c = true →
      ∀ s ∈ Sign.all, Terminal.begins (.sign s) c = false) (by decide) (by decide)
      (isNameRest_of_isNameStart h) h
  have hmark : c ≠ '.' ∧ c ≠ '"' ∧ c ≠ '\'' :=
    forall_isNameRest (p := fun c => isNameStart c = true → c ≠ '.' ∧ c ≠ '"' ∧ c ≠ '\'')
      (by decide) (by decide) (isNameRest_of_isNameStart h) h
  cases t with
  | name => exact absurd rfl hname
  | keyword k => exact absurd rfl (hkeyword k)
  | sign s => exact hsign s (by cases s <;> decide)
  | _ => simp [Terminal.begins, isDigit_of_isNameStart h, hmark]

/-- A word is taken whole, as a name or as the keyword that it spells. -/
lemma first?_word (ht : .name ∈ expected) (hc : isNameStart c = true)
    (hcs : ∀ d ∈ cs, isNameRest d = true) (hr : ∀ d ∈ r.head?, isNameRest d = false) :
    first? expected (c :: (cs ++ r)) = some (classify expected ⟨.name, c :: cs⟩) := by
  refine first?_eq_of_begins ht ?_ ?_
  · simp [Terminal.match?, Terminal.name?, hc, (span_append hcs hr).1]
  · intro u hu _
    have hu : u = .approximate ∨ u = .decimal := by
      simpa [show Terminal.before .name = [.approximate, .decimal] by rfl] using hu
    rcases hu with rfl | rfl <;> exact not_begins_of_isNameStart hc _ nofun nofun

lemma classify_eq_self {t : Token} (h : t.terminal ≠ .name) : classify expected t = t := by
  unfold classify
  split
  · next hname _ => exact absurd hname h
  · rfl

end Token

/-- The keywords among terminals. -/
def keywordsOf (expected : List Terminal) : List Keyword :=
  expected.filterMap fun
    | .keyword k => some k
    | _ => none

lemma mem_keywordsOf {expected : List Terminal} {k : Keyword} (h : .keyword k ∈ expected) :
    k ∈ keywordsOf expected :=
  List.mem_filterMap.2 ⟨_, h, rfl⟩

/-- Whether words are told apart by the terminals that are expected: as names, or as keywords none
of which begins another one. -/
def Distinguishes (expected : List Terminal) : Prop :=
  .name ∈ expected ∨ ∀ k ∈ keywordsOf expected, ∀ k' ∈ keywordsOf expected,
    k.letters <+: k'.letters → k = k'

instance (expected : List Terminal) : Decidable (Distinguishes expected) :=
  inferInstanceAs (Decidable (_ ∨ _))

namespace Token

variable {expected : List Terminal} {r : List Char}

lemma first?_keyword (he : Distinguishes expected) {k : Keyword} (ht : .keyword k ∈ expected)
    (hr : ∀ d ∈ r.head?, isNameRest d = false) :
    first? expected (k.capitals ++ r) = some ⟨.keyword k, k.capitals⟩ := by
  obtain ⟨c, cs, hk, hc, hcs⟩ := k.exists_capitals
  by_cases hname : .name ∈ expected
  · rw [hk, List.cons_append, first?_word hname hc hcs hr, ← hk]
    simp [classify, k.keyword?_capitals, ht]
  · have hapart := he.resolve_left hname
    have hmatch : Terminal.match? (.keyword k) (k.capitals ++ r) = some k.capitals := by
      have hlength : k.letters.length = k.capitals.length := by simp [Keyword.capitals]
      simp [Terminal.match?, Terminal.spelled?, hlength, k.map_foldLetter_capitals]
    rw [first?_eq ht hmatch, classify_eq_self (by simp)]
    intro u hu hin
    cases u with
    | name => exact absurd hin hname
    | keyword k' =>
      -- one of the two begins the other, since both begin the text
      rw [Option.eq_none_iff_forall_ne_some]
      intro w hw
      simp only [Terminal.match?, Terminal.spelled?, Option.ite_none_right_eq_some] at hw
      have hprefix : k'.letters <+: k.letters ++ r.map foldLetter := by
        rw [← hw.1, List.map_take, List.map_append, k.map_foldLetter_capitals]
        exact List.take_prefix _ _
      have hne : Terminal.keyword k' ≠ .keyword k := Terminal.ne_of_mem_before hu
      rcases List.prefix_or_prefix_of_prefix hprefix (List.prefix_append _ _) with h | h
      · exact hne (congrArg _ (hapart _ (mem_keywordsOf hin) _ (mem_keywordsOf ht) h))
      · exact hne (congrArg _ (hapart _ (mem_keywordsOf ht) _ (mem_keywordsOf hin) h).symm)
    | _ =>
      rw [hk]
      exact Terminal.match?_eq_none (not_begins_of_isNameStart hc _ nofun nofun)

/-- The signs that are tried before another one begin with other characters, unless they go on
with it. -/
lemma first?_sign {s : Sign} (ht : .sign s ∈ expected)
    (hdot : s = .dot → ∀ d ∈ r.head?, isDigit d = false)
    (hless : s = .less → ∀ d ∈ r.head?, d ≠ '=' ∧ d ≠ '>')
    (hgreater : s = .greater → ∀ d ∈ r.head?, d ≠ '=') :
    first? expected (s.chars ++ r) = some ⟨.sign s, s.chars⟩ := by
  have hmatch : Terminal.match? (.sign s) (s.chars ++ r) = some s.chars := by
    simp [Terminal.match?, Terminal.spelled?]
  have hbegins : ∀ u ∈ Terminal.before (.sign s), ∀ c ∈ s.chars.head?, u.begins c = true →
      (s = .dot ∧ (u = .approximate ∨ u = .decimal)) ∨ (s = .lessOrEqual ∧ u = .sign .unequal) ∨
      (s = .less ∧ (u = .sign .unequal ∨ u = .sign .lessOrEqual)) ∨
      (s = .greater ∧ u = .sign .greaterOrEqual) := by
    cases s <;> decide
  obtain ⟨c, cs, hs⟩ : ∃ c cs, s.chars = c :: cs := by cases s <;> exact ⟨_, _, rfl⟩
  rw [first?_eq ht hmatch, classify_eq_self (by simp)]
  rintro u hu -
  by_cases h : u.begins c = true
  · rcases hbegins u hu c (by simp [hs]) h with ⟨rfl, h⟩ | ⟨rfl, rfl⟩ | ⟨rfl, h⟩ | ⟨rfl, rfl⟩
    · have hmantissa : Terminal.mantissa (Sign.chars .dot ++ r) = ['.'] := by
        have hr : r.takeWhile isDigit = [] :=
          (span_append (List.forall_mem_nil _) (hdot rfl)).1
        simp [Terminal.mantissa, Sign.chars, hr, show isDigit '.' = false by decide]
      have hdigit : isDigit '.' = false := by decide
      rcases h with rfl | rfl <;>
        simp [Terminal.match?, Terminal.approximate?, Terminal.decimal?, hmantissa, hdigit]
    · rfl
    · have hr := hless rfl
      rcases h with rfl | rfl <;> cases r <;>
        simp_all [Terminal.match?, Terminal.spelled?, Sign.chars]
    · have hr := hgreater rfl
      cases r <;> simp_all [Terminal.match?, Terminal.spelled?, Sign.chars]
  · rw [hs]
    exact Terminal.match?_eq_none (by simpa using h)

/-- A row of digits is taken whole, where no number goes on behind it. -/
lemma first?_digits (ht : .integer ∈ expected) (hdigits : ∀ c ∈ w, isDigit c = true) (hne : w ≠ [])
    (hr : ∀ d ∈ r.head?, isDigit d = false ∧ d ≠ '.' ∧ d ≠ 'e' ∧ d ≠ 'E') :
    first? expected (w ++ r) = some ⟨.integer, w⟩ := by
  obtain ⟨htake, hdrop⟩ := span_append hdigits fun d hd => (hr d hd).1
  obtain ⟨c, cs, hw⟩ := List.exists_cons_of_ne_nil hne
  have hc : isDigit c = true := hdigits c (by simp [hw])
  have hmatch : Terminal.match? .integer (w ++ r) = some w := by
    simp [Terminal.match?, Terminal.integer?, htake, hne]
  have hmantissa : Terminal.mantissa (w ++ r) = w := by
    have hpoint : ∀ r', r ≠ '.' :: r' := by
      rintro r' rfl
      exact (hr '.' rfl).2.1 rfl
    rw [Terminal.mantissa, htake, hdrop]
    split
    · next r' => exact absurd rfl (hpoint r')
    · exact List.append_nil _
  rw [first?_eq ht hmatch, classify_eq_self (by simp)]
  rintro u hu -
  have hu : u = .approximate ∨ u = .decimal ∨ u = .name ∨ u = .quotedName ∨ u = .string := by
    have hbefore : Terminal.before .integer =
      [.approximate, .decimal, .name, .quotedName, .string] := rfl
    simpa [hbefore] using hu
  have hother {t : Terminal} (h : t.begins c = false) : t.match? (w ++ r) = none := by
    rw [hw]
    exact Terminal.match?_eq_none h
  rcases hu with rfl | rfl | rfl | rfl | rfl
  · rw [Terminal.match?, Terminal.approximate?, hmantissa, List.drop_left]
    cases r with
    | nil => simp
    | cons d r =>
      obtain ⟨-, -, he, he'⟩ := hr d rfl
      simp [he, he']
  · have hpoint : '.' ∉ w := fun h => absurd (hdigits '.' h) (by decide)
    simp [Terminal.match?, Terminal.decimal?, hmantissa, hpoint]
  · refine hother ?_
    rw [Terminal.begins, ← Bool.not_eq_true]
    exact fun h => by simp [isDigit_of_isNameStart h] at hc
  · exact hother (by simpa [Terminal.begins] using fun h => absurd (h ▸ hc) (by decide))
  · exact hother (by simpa [Terminal.begins] using fun h => absurd (h ▸ hc) (by decide))

lemma first?_integer (ht : .integer ∈ expected) (n : Nat)
    (hr : ∀ d ∈ r.head?, isDigit d = false ∧ d ≠ '.' ∧ d ≠ 'e' ∧ d ≠ 'E') :
    first? expected (digitsOf n ++ r) = some ⟨.integer, digitsOf n⟩ :=
  first?_digits ht (fun _ => isDigit_of_mem_digitsOf) (digitsOf_ne_nil n) hr

/-- A quoted text ends at the quote that closes it. -/
lemma quotedLength?_double {quote : Char} (cs : List Char) (hr : ∀ d ∈ r.head?, d ≠ quote) :
    Terminal.quotedLength? quote (double quote cs ++ quote :: r) =
      some ((double quote cs).length + 1) := by
  induction cs with
  | nil =>
    cases r with
    | nil => simp [double, Terminal.quotedLength?]
    | cons d r => simp [double, Terminal.quotedLength?, hr d rfl]
  | cons c cs ih =>
    by_cases hc : c = quote
    · simp [double, Terminal.quotedLength?, hc, ih]
    · obtain ⟨d, ds, hd⟩ := List.exists_cons_of_ne_nil
        (List.append_ne_nil_of_right_ne_nil (double quote cs) (List.cons_ne_nil quote r))
      rw [hd] at ih
      simp [double, Terminal.quotedLength?, hc, hd, ih]

lemma first?_chars (ht : .string ∈ expected) (s : String) (hr : ∀ d ∈ r.head?, d ≠ '\'') :
    first? expected ((singleQuoted s).toList ++ r) = some ⟨.string, (singleQuoted s).toList⟩ := by
  have htext : (singleQuoted s).toList = '\'' :: (double '\'' s.toList ++ ['\'']) := by
    simp [singleQuoted]
  have hlength := quotedLength?_double s.toList hr
  have hmatch : Terminal.match? .string ('\'' :: (double '\'' s.toList ++ '\'' :: r)) =
      some ('\'' :: (double '\'' s.toList ++ ['\''])) := by
    simp [Terminal.match?, Terminal.quoted?, hlength, List.take_append, List.take_of_length_le]
  rw [htext, List.cons_append, List.append_assoc, List.singleton_append,
    first?_eq_of_begins ht hmatch, classify_eq_self (by simp)]
  rintro u hu -
  have hbegins : ∀ u ∈ Terminal.before .string, u.begins '\'' = false := by decide
  exact hbegins u hu

end Token

end GraphSelect
