import GraphSelect.Proofs.Numerals
import GraphSelect.Proofs.Parsing

/-!
Letters in either case.

Which token a text begins with is told by what its letters count as. So the text with every letter
folded begins with the same token, folded. A token that has quotes around it is quoted as a whole,
and any other has none. So two texts that are the same once the letters outside quotes are put in
lower case begin with tokens that are the same in lower case, or exactly the same if they are
quoted, and the rests of the two texts are again the same once that is done.
-/

namespace GraphSelect

open Text

/-! ### Letters -/

/-- The letters that count as another one, those of `A` to `Z` among them. -/
def foldedLetters : List Char :=
  strayLetters ++ (List.range 26).map fun n => Char.ofNat (65 + n)

lemma toLower_eq_self_or_mem (c : Char) : c.toLower = c ∨ c ∈ foldedLetters := by
  by_cases hc : c.toNat < 128
  · have h : ∀ n < 128, (Char.ofNat n).toLower = Char.ofNat n ∨ Char.ofNat n ∈ foldedLetters := by
      decide
    simpa [Char.ofNat_toNat] using h c.toNat hc
  · refine .inl ?_
    unfold Char.toLower
    split
    · next h => exact absurd (Nat.lt_of_le_of_lt (UInt32.le_iff_toNat_le.1 h.2) (by decide)) hc
    · rfl

lemma foldLetter_eq_self_or_mem (c : Char) : foldLetter c = c ∨ c ∈ foldedLetters := by
  by_cases hc : c ∈ strayLetters
  · exact .inr (List.mem_append_left _ hc)
  · have hfold : foldLetter c = c.toLower := by
      simp only [strayLetters, List.mem_cons, not_or, List.not_mem_nil, not_false_eq_true,
        and_true] at hc
      simp [foldLetter, hc]
    rw [hfold]
    exact toLower_eq_self_or_mem c

/-- What is the same of these letters and of those that they count as is so of all characters. -/
lemma apply_foldLetter {α : Type} {f : Char → α} (h : ∀ c ∈ foldedLetters, f (foldLetter c) = f c)
    (c : Char) : f (foldLetter c) = f c := by
  rcases foldLetter_eq_self_or_mem c with hc | hc
  · rw [hc]
  · exact h c hc

lemma apply_toLower {α : Type} {f : Char → α} (h : ∀ c ∈ foldedLetters, f c.toLower = f c)
    (c : Char) : f c.toLower = f c := by
  rcases toLower_eq_self_or_mem c with hc | hc
  · rw [hc]
  · exact h c hc

@[simp] lemma foldLetter_foldLetter (c : Char) : foldLetter (foldLetter c) = foldLetter c :=
  apply_foldLetter (by decide) c

@[simp] lemma foldLetter_toLower (c : Char) : foldLetter c.toLower = foldLetter c :=
  apply_toLower (by decide) c

@[simp] lemma digitValue?_foldLetter (c : Char) : digitValue? (foldLetter c) = digitValue? c :=
  apply_foldLetter (by decide) c

@[simp] lemma isDigit_foldLetter (c : Char) : isDigit (foldLetter c) = isDigit c :=
  apply_foldLetter (by decide) c

@[simp] lemma isNameStart_foldLetter (c : Char) : isNameStart (foldLetter c) = isNameStart c :=
  apply_foldLetter (by decide) c

@[simp] lemma isNameRest_foldLetter (c : Char) : isNameRest (foldLetter c) = isNameRest c :=
  apply_foldLetter (by decide) c

@[simp] lemma isGap_foldLetter (c : Char) : isGap (foldLetter c) = isGap c :=
  apply_foldLetter (by decide) c

@[simp] lemma upperChar_toLower (c : Char) : upperChar c.toLower = upperChar c :=
  apply_toLower (by decide) c

lemma foldLetter_iff {p : Char → Prop} (h : ∀ l ∈ foldedLetters, (p (foldLetter l) ↔ p l))
    (c : Char) : p (foldLetter c) ↔ p c := by
  rcases foldLetter_eq_self_or_mem c with hc | hc
  · rw [hc]
  · exact h c hc

/-- Whether a character neither counts as another one nor has another one count as it. -/
def IsSolid (c : Char) : Prop := ∀ l ∈ foldedLetters, foldLetter l ≠ c ∧ l ≠ c

instance (c : Char) : Decidable (IsSolid c) :=
  inferInstanceAs (Decidable (∀ l ∈ foldedLetters, foldLetter l ≠ c ∧ l ≠ c))

lemma IsSolid.eq_iff {c : Char} (h : IsSolid c) (d : Char) : foldLetter d = c ↔ d = c :=
  foldLetter_iff (p := (· = c)) (fun l hl => iff_of_false (h l hl).1 (h l hl).2) d

lemma IsSolid.map_eq_iff {cs : List Char} (h : ∀ c ∈ cs, IsSolid c) (ds : List Char) :
    ds.map foldLetter = cs ↔ ds = cs := by
  induction ds generalizing cs with
  | nil => rfl
  | cons d ds ih =>
    cases cs with
    | nil => simp
    | cons c cs =>
      obtain ⟨hc, hcs⟩ := List.forall_mem_cons.1 h
      rw [List.map_cons, List.cons.injEq, List.cons.injEq, hc.eq_iff, ih hcs]

lemma foldLetter_of_isDigit {c : Char} (h : isDigit c = true) : foldLetter c = c := by
  rcases foldLetter_eq_self_or_mem c with hc | hc
  · exact hc
  · have hno : ∀ l ∈ foldedLetters, isDigit l = false := by decide
    rw [hno c hc] at h
    cases h

/-! ### What terminals match -/

section Spans

variable {p : Char → Bool} (hp : ∀ c, p (foldLetter c) = p c) (cs : List Char)

include hp

lemma takeWhile_foldLetter :
    (cs.map foldLetter).takeWhile p = (cs.takeWhile p).map foldLetter := by
  rw [List.takeWhile_map, show p ∘ foldLetter = p from funext hp]

lemma dropWhile_foldLetter :
    (cs.map foldLetter).dropWhile p = (cs.dropWhile p).map foldLetter := by
  rw [List.dropWhile_map, show p ∘ foldLetter = p from funext hp]

end Spans

/-- Digits are not folded. -/
lemma map_foldLetter_digits {cs : List Char} (h : ∀ c ∈ cs, isDigit c = true) :
    cs.map foldLetter = cs := by
  rw [List.map_congr_left fun c hc => foldLetter_of_isDigit (h c hc), List.map_id']

namespace Terminal

lemma mantissa_foldLetter (cs : List Char) :
    mantissa (cs.map foldLetter) = (mantissa cs).map foldLetter := by
  unfold mantissa
  rw [takeWhile_foldLetter isDigit_foldLetter, dropWhile_foldLetter isDigit_foldLetter,
    List.map_append]
  congr 1
  generalize cs.dropWhile isDigit = ds
  cases ds with
  | nil => rfl
  | cons d r =>
    by_cases hd : d = '.'
    · subst hd
      have hpoint : foldLetter '.' = '.' := by decide
      simp only [List.map_cons, hpoint, takeWhile_foldLetter isDigit_foldLetter]
    · have hd' : foldLetter d ≠ '.' := by rwa [Ne, IsSolid.eq_iff (by decide)]
      simp [hd, hd']

lemma power?_foldLetter (cs : List Char) :
    power? (cs.map foldLetter) = (power? cs).map (List.map foldLetter) := by
  have hsign : ∀ sign : List Char, sign = [] ∨ sign = ['+'] ∨ sign = ['-'] →
      (let digits := ((cs.map foldLetter).drop sign.length).takeWhile isDigit
        if digits.isEmpty then none else some (sign ++ digits)) =
      Option.map (List.map foldLetter)
        (let digits := (cs.drop sign.length).takeWhile isDigit
          if digits.isEmpty then none else some (sign ++ digits)) := by
    intro sign hsign
    have hfold : sign.map foldLetter = sign := by
      rcases hsign with rfl | rfl | rfl <;> decide
    rw [← List.map_drop, takeWhile_foldLetter isDigit_foldLetter]
    simp only [List.isEmpty_map]
    split
    · rfl
    · simp [hfold]
  unfold power?
  cases cs with
  | nil => exact hsign [] (.inl rfl)
  | cons c cs =>
    by_cases hplus : c = '+'
    · subst hplus
      exact hsign ['+'] (.inr (.inl rfl))
    · by_cases hminus : c = '-'
      · subst hminus
        exact hsign ['-'] (.inr (.inr rfl))
      · have hplus' : foldLetter c ≠ '+' := by rwa [Ne, IsSolid.eq_iff (by decide)]
        have hminus' : foldLetter c ≠ '-' := by rwa [Ne, IsSolid.eq_iff (by decide)]
        simpa [hplus, hminus, hplus', hminus'] using hsign [] (.inl rfl)

lemma approximate?_foldLetter (cs : List Char) :
    approximate? (cs.map foldLetter) = (approximate? cs).map (List.map foldLetter) := by
  unfold approximate?
  simp only [mantissa_foldLetter, List.any_map, List.length_map, ← List.map_drop]
  rw [show isDigit ∘ foldLetter = isDigit from funext isDigit_foldLetter]
  split
  · cases cs.drop (mantissa cs).length with
    | nil => rfl
    | cons e r =>
      have he : (foldLetter e = 'e' ∨ foldLetter e = 'E') ↔ (e = 'e' ∨ e = 'E') :=
        foldLetter_iff (p := fun c => c = 'e' ∨ c = 'E') (by decide) e
      simp only [List.map_cons, he, power?_foldLetter]
      split
      · simp [Option.map_map, Function.comp_def]
      · rfl
  · rfl

lemma decimal?_foldLetter (cs : List Char) :
    decimal? (cs.map foldLetter) = (decimal? cs).map (List.map foldLetter) := by
  have hpoint : ((mantissa cs).map foldLetter).contains '.' = (mantissa cs).contains '.' := by
    have hsolid : IsSolid '.' := by decide
    rw [Bool.eq_iff_iff, List.contains_iff_mem, List.contains_iff_mem, List.mem_map]
    simp [hsolid.eq_iff]
  unfold decimal?
  simp only [mantissa_foldLetter, List.any_map, hpoint]
  rw [show isDigit ∘ foldLetter = isDigit from funext isDigit_foldLetter]
  split <;> rfl

lemma integer?_foldLetter (cs : List Char) :
    integer? (cs.map foldLetter) = (integer? cs).map (List.map foldLetter) := by
  unfold integer?
  simp only [takeWhile_foldLetter isDigit_foldLetter, List.isEmpty_map]
  split <;> rfl

lemma name?_foldLetter (cs : List Char) :
    name? (cs.map foldLetter) = (name? cs).map (List.map foldLetter) := by
  cases cs with
  | nil => rfl
  | cons c cs =>
    simp only [List.map_cons, name?, isNameStart_foldLetter,
      takeWhile_foldLetter isNameRest_foldLetter]
    split <;> rfl

lemma quotedLength?_foldLetter {quote : Char}
    (hquote : IsSolid quote) (cs : List Char) :
    quotedLength? quote (cs.map foldLetter) = quotedLength? quote cs := by
  have h := hquote.eq_iff
  fun_induction quotedLength? quote cs with
  | case1 => rfl
  | _ => simp_all [quotedLength?]

lemma filledLength?_foldLetter {quote : Char}
    (hquote : IsSolid quote) (cs : List Char) :
    filledLength? quote (cs.map foldLetter) = filledLength? quote cs := by
  have h := hquote.eq_iff
  match cs with
  | [] => rfl
  | [c] => rfl
  | c :: d :: cs =>
    have hlength := quotedLength?_foldLetter hquote
    have hrest := hlength (d :: cs)
    rw [List.map_cons] at hrest
    simp only [List.map_cons, filledLength?, ne_eq, h, hlength, hrest]

lemma quoted?_foldLetter {length? : List Char → Option Nat} {quote : Char}
    (hquote : IsSolid quote)
    (hlength : ∀ cs, length? (cs.map foldLetter) = length? cs) (cs : List Char) :
    quoted? length? quote (cs.map foldLetter) =
      (quoted? length? quote cs).map (List.map foldLetter) := by
  cases cs with
  | nil => rfl
  | cons c cs =>
    simp only [List.map_cons, quoted?, hquote.eq_iff, hlength]
    split
    · simp [Option.map_map, Function.comp_def]
    · rfl

lemma spelled?_foldLetter {same : Char → Char} {letters : List Char} (cs : List Char)
    (h : ∀ ds : List Char, (ds.map foldLetter).map same = letters ↔ ds.map same = letters) :
    spelled? same letters (cs.map foldLetter) =
      (spelled? same letters cs).map (List.map foldLetter) := by
  simp only [spelled?, ← List.map_take, h]
  split <;> rfl

/-- What a terminal matches is told by what the letters count as. -/
theorem match?_foldLetter (t : Terminal) (cs : List Char) :
    t.match? (cs.map foldLetter) = (t.match? cs).map (List.map foldLetter) := by
  cases t with
  | approximate => exact approximate?_foldLetter cs
  | decimal => exact decimal?_foldLetter cs
  | name => exact name?_foldLetter cs
  | quotedName =>
    exact quoted?_foldLetter (by decide) (filledLength?_foldLetter (by decide)) cs
  | string => exact quoted?_foldLetter (by decide) (quotedLength?_foldLetter (by decide)) cs
  | integer => exact integer?_foldLetter cs
  | sign s =>
    have hsolid : ∀ c ∈ s.chars, IsSolid c := by cases s <;> decide
    exact spelled?_foldLetter cs (by simpa using IsSolid.map_eq_iff hsolid)
  | keyword k => exact spelled?_foldLetter cs (by simp [Function.comp_def])

end Terminal

lemma keyword?_map_foldLetter (w : List Char) : keyword? (w.map foldLetter) = keyword? w := by
  simp [keyword?, Function.comp_def]

namespace Token

/-- A token with its letters as those that they count as. -/
def folded (t : Token) : Token := { t with text := t.text.map foldLetter }

variable {expected : List Terminal} {t t' : Token} {cs cs' : List Char}

lemma classify_folded (expected : List Terminal) (t : Token) :
    classify expected t.folded = (classify expected t).folded := by
  obtain ⟨terminal, text⟩ := t
  simp only [classify, folded, keyword?_map_foldLetter]
  cases terminal with
  | name =>
    cases keyword? text with
    | none => rfl
    | some k =>
      dsimp only
      split <;> rfl
  | _ => rfl

/-- Texts whose letters count as the same begin with the same token. -/
theorem first?_foldLetter (expected : List Terminal) (cs : List Char) :
    first? expected (cs.map foldLetter) = (first? expected cs).map folded := by
  have hmatch : (fun t : Terminal => (t.match? (cs.map foldLetter)).map (Token.mk t)) =
      fun t => ((t.match? cs).map (Token.mk t)).map folded := by
    funext t
    rw [Terminal.match?_foldLetter, Option.map_map, Option.map_map]
    rfl
  have hclassify : classify expected ∘ folded = folded ∘ classify expected :=
    funext (classify_folded expected)
  simp only [first?]
  rw [hmatch, Option.map_map, ← hclassify, ← Option.map_map, List.map_findSome? (g := folded)]
  rfl

end Token

/-! ### Texts in lower case -/

def isQuote (c : Char) : Bool := c = '\'' || c = '"'

/-- A text with the letters `A` to `Z` in lower case, but for those between quotes. The quote that
has been opened, if one has, is given. -/
def lowerUnquoted : Option Char → List Char → List Char
  | _, [] => []
  | none, c :: cs => c.toLower :: lowerUnquoted (if isQuote c then some c else none) cs
  | some quote, c :: cs => c :: lowerUnquoted (if c = quote then none else some quote) cs

/-- Whether a token is a quoted name or a text. -/
def Token.isQuoted (t : Token) : Bool := t.terminal = .quotedName || t.terminal = .string

/-- A token with the letters `A` to `Z` in lower case, unless it is quoted. -/
def Token.lowered (t : Token) : Token :=
  { t with text := if t.isQuoted then t.text else t.text.map Char.toLower }

lemma map_foldLetter_lowerUnquoted (quote? : Option Char) (cs : List Char) :
    (lowerUnquoted quote? cs).map foldLetter = cs.map foldLetter := by
  induction cs generalizing quote? with
  | nil => simp [lowerUnquoted]
  | cons c cs ih => cases quote? <;> simp [lowerUnquoted, ih]

lemma isQuote_foldLetter (c : Char) : isQuote (foldLetter c) = isQuote c :=
  apply_foldLetter (by decide) c

lemma lowerUnquoted_append {w : List Char} (hw : ∀ c ∈ w, isQuote c = false) (r : List Char) :
    lowerUnquoted none (w ++ r) = w.map Char.toLower ++ lowerUnquoted none r := by
  induction w with
  | nil => rfl
  | cons c w ih =>
    obtain ⟨hc, hw⟩ := List.forall_mem_cons.1 hw
    simp [lowerUnquoted, hc, ih hw]

lemma lowerUnquoted_of_isGap {c : Char} (hc : isGap c = true) (cs : List Char) :
    lowerUnquoted none (c :: cs) = c :: lowerUnquoted none cs := by
  have hchar : isQuote c = false ∧ c.toLower = c := by
    simp only [isGap, Bool.or_eq_true, decide_eq_true_eq] at hc
    rcases hc with (((rfl | rfl) | rfl) | rfl) | rfl <;> decide
  simp [lowerUnquoted, hchar]

lemma map_foldLetter_eq {cs cs' : List Char} (h : lowerUnquoted none cs = lowerUnquoted none cs') :
    cs.map foldLetter = cs'.map foldLetter := by
  rw [← map_foldLetter_lowerUnquoted none cs, h, map_foldLetter_lowerUnquoted]

lemma isGap_eq_of_lowerUnquoted {c c' : Char} {cs cs' : List Char}
    (h : lowerUnquoted none (c :: cs) = lowerUnquoted none (c' :: cs')) : isGap c = isGap c' := by
  have hfold := (List.cons.inj (map_foldLetter_eq h)).1
  rw [← isGap_foldLetter, hfold, isGap_foldLetter]

lemma toLower_of_isQuote {c : Char} (h : isQuote c = true) : c.toLower = c := by
  simp only [isQuote, Bool.or_eq_true, decide_eq_true_eq] at h
  rcases h with rfl | rfl <;> decide

/-- What is quoted is left as it is up to the quote that closes it. -/
lemma lowerUnquoted_quotedLength? {quote : Char} (hquote : isQuote quote = true) {cs : List Char}
    {n : Nat} (h : Terminal.quotedLength? quote cs = some n) :
    lowerUnquoted (some quote) cs = cs.take n ++ lowerUnquoted none (cs.drop n) := by
  have hlower := toLower_of_isQuote hquote
  have hopened (c : Char) (cs : List Char) (hc : c ≠ quote) :
      lowerUnquoted (some quote) (c :: cs) = c :: lowerUnquoted (some quote) cs := by
    rw [lowerUnquoted, if_neg hc]
  have hclosed (cs : List Char) :
      lowerUnquoted (some quote) (quote :: cs) = quote :: lowerUnquoted none cs := by
    rw [lowerUnquoted, if_pos rfl]
  fun_induction Terminal.quotedLength? quote cs generalizing n with
  | case1 => cases h
  | case2 =>
    cases h
    exact hclosed []
  | case3 => cases h
  | case4 c d cs hc ih =>
    obtain ⟨n, hn, rfl⟩ := Option.map_eq_some_iff.1 h
    rw [hopened _ _ hc, ih hn]
    rfl
  | case5 c d cs hc hd =>
    cases h
    rw [not_not.1 hc, hclosed]
    rfl
  | case6 c d cs hc hd ih =>
    -- a pair of quotes closes and opens, or its first one closes for good
    cases h
    rw [not_not.1 hc, not_not.1 hd, hclosed]
    cases hn : Terminal.quotedLength? quote cs with
    | none => rfl
    | some n =>
      rw [lowerUnquoted, if_pos hquote, hlower, ih hn]
      rfl

lemma quotedLength?_of_filledLength? {quote : Char} {cs : List Char} {n : Nat}
    (h : Terminal.filledLength? quote cs = some n) : Terminal.quotedLength? quote cs = some n := by
  match cs with
  | [] => cases h
  | [c] => cases h
  | c :: d :: cs =>
    rw [Terminal.filledLength?] at h
    rw [Terminal.quotedLength?]
    split at h
    · next hc => rw [if_pos hc, h]
    · next hc =>
      rw [if_neg hc]
      split at h
      · next hd =>
        rw [if_neg (not_not.2 hd), h]
        rfl
      · cases h

lemma lowerUnquoted_quoted? {length? : List Char → Option Nat} {quote : Char}
    (hquote : isQuote quote = true)
    (hlength : ∀ {cs n}, length? cs = some n → Terminal.quotedLength? quote cs = some n)
    {cs w : List Char} (h : Terminal.quoted? length? quote cs = some w) :
    w ≠ [] ∧ ∃ r, cs = w ++ r ∧ lowerUnquoted none cs = w ++ lowerUnquoted none r := by
  cases cs with
  | nil => cases h
  | cons c cs =>
    rw [Terminal.quoted?, Option.ite_none_right_eq_some] at h
    obtain ⟨rfl, h⟩ := h
    obtain ⟨n, hn, rfl⟩ := Option.map_eq_some_iff.1 h
    have hlower : c.toLower = c := toLower_of_isQuote hquote
    refine ⟨List.cons_ne_nil _ _, cs.drop n, by simp, ?_⟩
    rw [lowerUnquoted, if_pos hquote, hlower, lowerUnquoted_quotedLength? hquote (hlength hn)]
    rfl

lemma isQuote_of_isDecimalChar {c : Char} (h : Decimal.isDecimalChar c = true) :
    isQuote c = false := by
  rw [← Bool.not_eq_true]
  intro hc
  simp only [isQuote, Bool.or_eq_true, decide_eq_true_eq] at hc
  rcases hc with rfl | rfl <;> exact absurd h (by decide)

lemma isQuote_of_digits {cs : List Char} (h : ∀ c ∈ cs, isDigit c = true) :
    ∀ c ∈ cs, isQuote c = false :=
  fun c hc => isQuote_of_isDecimalChar (isDecimalChar_of_digits h c hc)

lemma IsMantissa.isQuote {m : List Char} (h : IsMantissa m) : ∀ c ∈ m, isQuote c = false :=
  fun c hc => isQuote_of_isDecimalChar (h.isDecimalChar c hc)

lemma IsPower.isQuote {p : List Char} (h : IsPower p) : ∀ c ∈ p, isQuote c = false := by
  cases h with
  | none => simp
  | power he hsign hds =>
    refine List.forall_mem_cons.2 ⟨by rcases he with rfl | rfl <;> decide,
      List.forall_mem_append.2 ⟨?_, isQuote_of_digits hds⟩⟩
    cases hsign <;> decide

lemma isPrefix_mantissa (cs : List Char) : Terminal.mantissa cs <+: cs := by
  unfold Terminal.mantissa
  nth_rewrite 3 [← List.takeWhile_append_dropWhile (p := isDigit) (l := cs)]
  rw [List.prefix_append_right_inj]
  split
  · next r h =>
    rw [h, List.cons_prefix_cons]
    exact ⟨rfl, List.takeWhile_prefix _⟩
  · exact List.nil_prefix

lemma isPrefix_power? {cs p : List Char} (h : Terminal.power? cs = some p) : p <+: cs := by
  have hdigits : ∀ (sign : List Char) {ds : List Char}, cs = sign ++ ds →
      sign ++ (cs.drop sign.length).takeWhile isDigit <+: cs := by
    rintro sign ds rfl
    rw [List.drop_left, List.prefix_append_right_inj]
    exact List.takeWhile_prefix _
  unfold Terminal.power? at h
  simp only [Option.ite_none_left_eq_some, Option.some.injEq] at h
  obtain ⟨-, rfl⟩ := h
  split
  · exact hdigits ['+'] rfl
  · exact hdigits ['-'] rfl
  · exact hdigits [] rfl

namespace Terminal

variable {cs w : List Char}

lemma isPrefix_approximate? (h : approximate? cs = some w) : w ≠ [] ∧ w <+: cs := by
  unfold approximate? at h
  dsimp only at h
  rw [Option.ite_none_right_eq_some] at h
  obtain ⟨-, h⟩ := h
  obtain ⟨r, hr⟩ := isPrefix_mantissa cs
  have hdrop : cs.drop (mantissa cs).length = r := by
    nth_rewrite 2 [← hr]
    exact List.drop_left
  rw [hdrop] at h
  cases r with
  | nil => cases h
  | cons e r =>
    rw [Option.ite_none_right_eq_some] at h
    obtain ⟨p, hp, rfl⟩ := Option.map_eq_some_iff.1 h.2
    refine ⟨by simp, ?_⟩
    nth_rewrite 2 [← hr]
    rw [List.prefix_append_right_inj, List.cons_prefix_cons]
    exact ⟨rfl, isPrefix_power? hp⟩

lemma isPrefix_spelled? {same : Char → Char} {letters : List Char} (hne : letters ≠ [])
    (hquote : ∀ l ∈ letters, isQuote l = false) (hsame : ∀ c, isQuote (same c) = isQuote c)
    (h : spelled? same letters cs = some w) :
    w ≠ [] ∧ w <+: cs ∧ ∀ c ∈ w, isQuote c = false := by
  rw [spelled?, Option.ite_none_right_eq_some] at h
  obtain ⟨hletters, h⟩ := h
  obtain rfl := Option.some.inj h
  refine ⟨?_, List.take_prefix _ _, fun c hc => ?_⟩
  · intro hnil
    rw [hnil] at hletters
    exact hne hletters.symm
  · rw [← hsame]
    exact hquote _ (hletters ▸ List.mem_map_of_mem hc)

/-- What a terminal matches that takes no quotes has none. -/
lemma isPrefix_of_match? {t : Terminal} (h : t.match? cs = some w) (hquoted : t ≠ .quotedName)
    (hstring : t ≠ .string) : w ≠ [] ∧ w <+: cs ∧ ∀ c ∈ w, isQuote c = false := by
  cases t with
  | approximate =>
    obtain ⟨hne, hprefix⟩ := isPrefix_approximate? h
    obtain ⟨m, p, hm, hp, rfl⟩ := exists_of_match? h
    exact ⟨hne, hprefix, List.forall_mem_append.2 ⟨hm.isQuote, hp.isQuote⟩⟩
  | decimal =>
    obtain ⟨rfl, hm, hpoint⟩ := mantissa_of_match? h
    exact ⟨List.ne_nil_of_mem hpoint, isPrefix_mantissa cs, hm.isQuote⟩
  | integer =>
    obtain ⟨rfl, hne, hdigits⟩ := digits_of_match? h
    exact ⟨hne, List.takeWhile_prefix _, isQuote_of_digits hdigits⟩
  | name =>
    cases cs with
    | nil => cases h
    | cons c cs =>
      rw [match?, name?, Option.ite_none_right_eq_some] at h
      obtain ⟨hc, h⟩ := h
      obtain rfl := Option.some.inj h
      have hquote {d : Char} : isNameRest d = true → isQuote d = false :=
        forall_isNameRest (p := fun d => isQuote d = false) (by decide) (by decide)
      refine ⟨List.cons_ne_nil _ _, ?_, List.forall_mem_cons.2
        ⟨hquote (isNameRest_of_isNameStart hc), fun d hd => hquote (List.mem_takeWhile_imp hd)⟩⟩
      exact List.cons_prefix_cons.2 ⟨rfl, List.takeWhile_prefix _⟩
  | sign s =>
    exact isPrefix_spelled? (by cases s <;> decide) (by cases s <;> decide) (fun _ => rfl) h
  | keyword k =>
    exact isPrefix_spelled? (by cases k <;> decide) (by cases k <;> decide) isQuote_foldLetter h
  | quotedName => exact absurd rfl hquoted
  | string => exact absurd rfl hstring

end Terminal

/-! ### First tokens -/

namespace Token

variable {expected : List Terminal} {t t' : Token} {cs cs' : List Char}

/-- A text in lower case begins with what a terminal matches, in lower case. -/
lemma lowerUnquoted_of_match? {terminal : Terminal} {w : List Char}
    (h : terminal.match? cs = some w) : w ≠ [] ∧ ∃ r, cs = w ++ r ∧
      lowerUnquoted none cs = (Token.lowered ⟨terminal, w⟩).text ++ lowerUnquoted none r := by
  by_cases hquoted : terminal = .quotedName
  · subst hquoted
    exact lowerUnquoted_quoted? rfl quotedLength?_of_filledLength? h
  · by_cases hstring : terminal = .string
    · subst hstring
      exact lowerUnquoted_quoted? rfl id h
    · obtain ⟨hne, ⟨r, rfl⟩, hquote⟩ := Terminal.isPrefix_of_match? h hquoted hstring
      refine ⟨hne, r, rfl, ?_⟩
      rw [lowerUnquoted_append hquote]
      cases terminal with
      | quotedName => exact absurd rfl hquoted
      | string => exact absurd rfl hstring
      | _ => rfl

lemma classify_lowered (expected : List Terminal) (t : Token) :
    (classify expected t).text = t.text ∧ (classify expected t).lowered.text = t.lowered.text := by
  obtain ⟨terminal, text⟩ := t
  unfold classify
  cases terminal with
  | name =>
    cases keyword? text with
    | none => exact ⟨rfl, rfl⟩
    | some k =>
      dsimp only
      split <;> exact ⟨rfl, rfl⟩
  | _ => exact ⟨rfl, rfl⟩

lemma lowerUnquoted_of_first? (h : first? expected cs = some t) :
    t.text ≠ [] ∧ ∃ r, cs = t.text ++ r ∧
      lowerUnquoted none cs = t.lowered.text ++ lowerUnquoted none r := by
  obtain ⟨u, hu, rfl⟩ := Option.map_eq_some_iff.1 h
  obtain ⟨terminal, -, hmatch⟩ := List.exists_of_findSome?_eq_some hu
  obtain ⟨text, htext, rfl⟩ := Option.map_eq_some_iff.1 hmatch
  obtain ⟨hsame, hlower⟩ := classify_lowered expected ⟨terminal, text⟩
  rw [hsame, hlower]
  exact lowerUnquoted_of_match? htext

lemma drop_of_first? {c : Char} {r : List Char} (h : first? expected (c :: cs) = some t)
    (hr : c :: cs = t.text ++ r) : cs.drop (t.text.length - 1) = r := by
  obtain ⟨d, w, hw⟩ := List.exists_cons_of_ne_nil (lowerUnquoted_of_first? h).1
  rw [hw, List.cons_append] at hr
  rw [hw, (List.cons.inj hr).2]
  exact List.drop_left

lemma terminal_eq_of_folded (h : t.folded = t'.folded) : t.terminal = t'.terminal :=
  (Token.mk.inj h).1

lemma length_eq_of_folded (h : t.folded = t'.folded) : t.text.length = t'.text.length := by
  simpa [folded] using congrArg (fun u => u.text.length) h

lemma length_lowered (t : Token) : t.lowered.text.length = t.text.length := by
  unfold Token.lowered
  dsimp only
  split
  · rfl
  · exact List.length_map _

/-- **Texts that are the same in lower case begin with tokens that are**, and so do the texts behind
them. -/
theorem exists_first? (hcs : lowerUnquoted none cs = lowerUnquoted none cs')
    (h : first? expected cs = some t) :
    ∃ t', first? expected cs' = some t' ∧ t.folded = t'.folded ∧ t.lowered = t'.lowered ∧
      ∃ r r', cs = t.text ++ r ∧ cs' = t'.text ++ r' ∧
        lowerUnquoted none r = lowerUnquoted none r' := by
  have hfold := map_foldLetter_eq hcs
  have hfirst := first?_foldLetter expected cs'
  rw [← hfold, first?_foldLetter, h, Option.map_some] at hfirst
  obtain ⟨t', ht', hfolded⟩ := Option.map_eq_some_iff.1 hfirst.symm
  replace hfolded := hfolded.symm
  obtain ⟨-, r, hr, hlower⟩ := lowerUnquoted_of_first? h
  obtain ⟨-, r', hr', hlower'⟩ := lowerUnquoted_of_first? ht'
  have hlength : t.lowered.text.length = t'.lowered.text.length := by
    rw [length_lowered, length_lowered, length_eq_of_folded hfolded]
  rw [hlower, hlower'] at hcs
  obtain ⟨htext, hrest⟩ := List.append_inj hcs hlength
  have hlowered : t.lowered = t'.lowered := by
    change Token.mk t.terminal t.lowered.text = ⟨t'.terminal, t'.lowered.text⟩
    rw [terminal_eq_of_folded hfolded, htext]
  exact ⟨t', ht', hfolded, hlowered, r, r', hr, hr', hrest⟩

end Token

/-! ### Numbers -/

lemma takeWhile_isDigit_foldLetter (cs : List Char) :
    (cs.map foldLetter).takeWhile isDigit = cs.takeWhile isDigit := by
  rw [takeWhile_foldLetter isDigit_foldLetter, map_foldLetter_digits (isDigit_of_mem_takeWhile cs)]

lemma natOfDigits_foldLetter (cs : List Char) :
    natOfDigits (cs.map foldLetter) = natOfDigits cs := by
  simp [natOfDigits, List.foldl_map]

lemma splitSign_foldLetter (cs : List Char) :
    splitSign (cs.map foldLetter) = ((splitSign cs).1, (splitSign cs).2.map foldLetter) := by
  have hminus : IsSolid '-' := by decide
  have hplus : IsSolid '+' := by decide
  cases cs with
  | nil => rfl
  | cons c cs =>
    by_cases hm : c = '-'
    · subst hm
      rfl
    · by_cases hp : c = '+'
      · subst hp
        rfl
      · have hm' : foldLetter c ≠ '-' := by rwa [Ne, hminus.eq_iff]
        have hp' : foldLetter c ≠ '+' := by rwa [Ne, hplus.eq_iff]
        simp [splitSign, hm, hp, hm', hp']

/-- The parts of a number whose digits end before the rest of it. -/
def withPower? (whole fraction rest : List Char) : Option Decimal.Parts :=
  if whole.isEmpty && fraction.isEmpty then none
  else match rest with
    | [] => some ⟨whole, fraction, 0⟩
    | e :: power =>
      let digits := (splitSign power).2
      if (e = 'e' ∨ e = 'E') ∧ digits ≠ [] ∧ digits.all isDigit then
        some ⟨whole, fraction, intOfDigits power⟩
      else none

lemma withPower?_foldLetter (whole fraction rest : List Char) :
    withPower? whole fraction (rest.map foldLetter) = withPower? whole fraction rest := by
  cases rest with
  | nil => rfl
  | cons e power =>
    have he : (foldLetter e = 'e' ∨ foldLetter e = 'E') ↔ (e = 'e' ∨ e = 'E') :=
      foldLetter_iff (p := fun c => c = 'e' ∨ c = 'E') (by decide) e
    simp [withPower?, he, splitSign_foldLetter, intOfDigits, natOfDigits_foldLetter]

/-- The parts of a number are the same with an `e` and with an `E`. -/
lemma parts?_foldLetter (cs : List Char) :
    Decimal.parts? (cs.map foldLetter) = Decimal.parts? cs := by
  unfold Decimal.parts?
  rw [takeWhile_isDigit_foldLetter, dropWhile_foldLetter isDigit_foldLetter]
  generalize cs.dropWhile isDigit = ds
  cases ds with
  | nil => rfl
  | cons d r =>
    by_cases hd : d = '.'
    · subst hd
      have hpoint : foldLetter '.' = '.' := by decide
      simp only [List.map_cons, hpoint, takeWhile_isDigit_foldLetter,
        dropWhile_foldLetter isDigit_foldLetter]
      exact withPower?_foldLetter _ _ _
    · have hd' : foldLetter d ≠ '.' := by rwa [Ne, IsSolid.eq_iff (by decide)]
      simpa [withPower?, hd, hd'] using withPower?_foldLetter (cs.takeWhile isDigit) [] (d :: r)

/-- A number with an exponent is the same with an `e` and with an `E`. -/
lemma ofApproximate_foldLetter {m p : List Char} (hm : IsMantissa m) (hp : IsPower p) :
    Literal.ofApproximate (String.ofList ((m ++ p).map foldLetter)) =
      Literal.ofApproximate (String.ofList (m ++ p)) := by
  have hchars : ∀ c ∈ m ++ p, isBlank c = false ∧ c ≠ '_' :=
    List.forall_mem_append.2 ⟨hm.plain, hp.plain⟩
  have hsign := hm.splitSign_eq p
  obtain ⟨parts, hparts⟩ := Option.isSome_iff_exists.1 (hm.isSome_parts? hp)
  generalize m ++ p = w at hchars hsign hparts ⊢
  have hfolded : ∀ c ∈ w.map foldLetter, isBlank c = false ∧ c ≠ '_' := by
    have hblank (c : Char) : isBlank (foldLetter c) = isBlank c := apply_foldLetter (by decide) c
    have hsolid : IsSolid '_' := by decide
    refine List.forall_mem_map.2 fun c hc => ?_
    rw [hblank, Ne, hsolid.eq_iff]
    exact hchars c hc
  simp [Literal.ofApproximate, Double.read?, bare?_eq_self hchars, bare?_eq_self hfolded,
    Double.ofChars?, splitSign_foldLetter, hsign, parts?_foldLetter, hparts]

lemma IsMantissa.map_foldLetter {m : List Char} (h : IsMantissa m) : m.map foldLetter = m := by
  cases h with
  | whole hcs => exact map_foldLetter_digits hcs
  | pointed hcs hds =>
    rw [List.map_append, List.map_cons, map_foldLetter_digits hcs, map_foldLetter_digits hds,
      show foldLetter '.' = '.' by decide]

namespace Token

variable {expected expected' : List Terminal} {t t' : Token} {cs cs' : List Char}

/-- A number without an exponent has no letters. -/
lemma folded_eq_self (h : first? expected cs = some t)
    (hnumber : t.terminal = .integer ∨ t.terminal = .decimal) : t.folded = t := by
  obtain ⟨terminal, text⟩ := t
  rcases hnumber with rfl | rfl
  · rw [folded, map_foldLetter_digits (isNumeral_of_first? h).2]
  · obtain hmatch | ⟨_, hk⟩ := first?_eq_some h
    · obtain ⟨-, hm, -⟩ := Terminal.mantissa_of_match? hmatch
      rw [folded, hm.map_foldLetter]
    · cases hk

/-- The constant of a token is not told by the case of letters, unless it is a text. -/
lemma literal?_folded (h : first? expected cs = some t) (hstring : t.terminal ≠ .string) :
    Parser.literal? t.folded = Parser.literal? t := by
  cases hterminal : t.terminal with
  | integer => rw [folded_eq_self h (.inl hterminal)]
  | decimal => rw [folded_eq_self h (.inr hterminal)]
  | approximate =>
    obtain ⟨terminal, text⟩ := t
    obtain rfl : terminal = .approximate := hterminal
    obtain hmatch | ⟨_, hk⟩ := first?_eq_some h
    · obtain ⟨m, p, hm, hp, rfl⟩ := Terminal.exists_of_match? hmatch
      exact congrArg some (ofApproximate_foldLetter hm hp)
    · cases hk
  | string => exact absurd hterminal hstring
  | keyword k => cases k <;> simp [Parser.literal?, folded, hterminal]
  | _ => simp [Parser.literal?, folded, hterminal]

lemma eq_of_lowered (h : t.lowered = t'.lowered) (hquoted : t.isQuoted = true) : t = t' := by
  obtain ⟨hterminal, htext⟩ := Token.mk.inj h
  have hquoted' : t'.isQuoted = true := by rwa [isQuoted, ← hterminal]
  rw [if_pos hquoted, if_pos hquoted'] at htext
  obtain ⟨terminal, text⟩ := t
  obtain ⟨terminal', text'⟩ := t'
  exact Token.mk.injEq .. ▸ ⟨hterminal, htext⟩

lemma literal?_eq (h : first? expected cs = some t) (h' : first? expected' cs' = some t')
    (hfolded : t.folded = t'.folded) (hlowered : t.lowered = t'.lowered) :
    Parser.literal? t = Parser.literal? t' := by
  have hterminal := terminal_eq_of_folded hfolded
  by_cases hstring : t.terminal = .string
  · rw [eq_of_lowered hlowered (by simp [isQuoted, hstring])]
  · rw [← literal?_folded h hstring, hfolded, literal?_folded h' (hterminal ▸ hstring)]

end Token

end GraphSelect
