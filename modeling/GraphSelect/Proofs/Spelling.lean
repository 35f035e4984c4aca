import GraphSelect.Proofs.Tokens

/-!
The tokens that printed texts are made of.

A printed text is a row of tokens, with blanks between some of them. Each token ends where the text
behind it cannot go on with it, so the text is read as these tokens, whatever else is expected, and
no other row of tokens has it. A blank, a comma and a closing bracket end every token.
-/

namespace GraphSelect

open Text

namespace Token

/-- A name, as it is printed. -/
def word (w : String) : Token := ⟨.name, w.toList⟩

def ofKeyword (k : Keyword) : Token := ⟨.keyword k, k.capitals⟩

def ofSign (s : Sign) : Token := ⟨.sign s, s.chars⟩

def ofNat (n : Nat) : Token := ⟨.integer, digitsOf n⟩

def ofChars (s : String) : Token := ⟨.string, (singleQuoted s).toList⟩

/-- The tokens of printed texts. -/
inductive IsPrinted : Token → Prop
  | word {w : String} (h : isPlainWord w.toList = true) : IsPrinted (word w)
  | ofKeyword (k : Keyword) : IsPrinted (ofKeyword k)
  | ofSign (s : Sign) : IsPrinted (ofSign s)
  | ofNat (n : Nat) : IsPrinted (ofNat n)
  | ofChars (s : String) : IsPrinted (ofChars s)

/-- Whether a character behind a token cannot be taken for a part of it. -/
def stopsAt (t : Token) (c : Char) : Bool :=
  match t.terminal with
  | .name | .keyword _ => !isNameRest c
  | .integer => !isDigit c && c ≠ '.' && c ≠ 'e' && c ≠ 'E'
  | .string => c ≠ '\''
  | .sign .less => c ≠ '=' && c ≠ '>'
  | .sign .greater => c ≠ '='
  | .sign .dot => !isDigit c
  | _ => true

variable {t : Token} {expected : List Terminal} {r : List Char}

/-- A printed token is read as it is, where it is expected and the text does not go on with it. -/
theorem first?_of_isPrinted (h : t.IsPrinted) (he : Distinguishes expected)
    (ht : t.terminal ∈ expected) (hr : ∀ c ∈ r.head?, t.stopsAt c = true) :
    first? expected (t.text ++ r) = some t := by
  cases h with
  | @word w hw =>
    obtain ⟨⟨c, cs, hcs, hc, hrest⟩, hk⟩ := isPlainWord_eq_true hw
    have hr' : ∀ d ∈ r.head?, isNameRest d = false := fun d hd => by
      simpa [word, stopsAt] using hr d hd
    have hfirst := first?_word ht hc hrest hr'
    rw [← List.cons_append, ← hcs] at hfirst
    rw [word, hfirst, classify, hk]
  | ofKeyword k =>
    exact first?_keyword he ht fun d hd => by simpa [ofKeyword, stopsAt] using hr d hd
  | ofSign s =>
    refine first?_sign ht ?_ ?_ ?_ <;> rintro rfl d hd <;> simpa [ofSign, stopsAt] using hr d hd
  | ofNat n =>
    exact first?_integer ht n fun d hd => by simpa [ofNat, stopsAt, and_assoc] using hr d hd
  | ofChars s => exact first?_chars ht s fun d hd => by simpa [ofChars, stopsAt] using hr d hd

lemma IsPrinted.exists_cons (h : t.IsPrinted) : ∃ c cs, t.text = c :: cs ∧ isGap c = false := by
  cases h with
  | word hw =>
    obtain ⟨⟨c, cs, hcs, hc, -⟩, -⟩ := isPlainWord_eq_true hw
    exact ⟨c, cs, hcs, isGap_of_isNameRest (isNameRest_of_isNameStart hc)⟩
  | ofKeyword k =>
    obtain ⟨c, cs, hcs, hc, -⟩ := k.exists_capitals
    exact ⟨c, cs, hcs, isGap_of_isNameRest (isNameRest_of_isNameStart hc)⟩
  | ofSign s => cases s <;> exact ⟨_, _, rfl, by decide⟩
  | ofNat n =>
    obtain ⟨c, cs, hcs, hc, -⟩ := exists_digitsOf n
    exact ⟨c, cs, hcs, isGap_of_isDecimalChar (by simp [Decimal.isDecimalChar, hc])⟩
  | ofChars s =>
    refine ⟨'\'', double '\'' s.toList ++ ['\''], ?_, by decide⟩
    rw [Token.ofChars, singleQuoted, String.toList_ofList]
    rfl

end Token

/-! ### Texts of rows of tokens -/

/-- The texts that a row of tokens is printed as. -/
inductive Spells : List Token → List Char → Prop
  | nil : Spells [] []
  | gap {ts : List Token} {cs : List Char} (h : Spells ts cs) : Spells ts (' ' :: cs)
  | token {t : Token} {ts : List Token} {cs : List Char} (ht : t.IsPrinted)
      (hstop : ∀ c ∈ cs.head?, t.stopsAt c = true) (h : Spells ts cs) :
      Spells (t :: ts) (t.text ++ cs)

/-- A character that ends every token. -/
def isBreak (c : Char) : Bool := c = ' ' || c = ',' || c = ')'

lemma Token.stopsAt_of_isBreak {c : Char} (h : isBreak c = true) (t : Token) :
    t.stopsAt c = true := by
  simp only [isBreak, Bool.or_eq_true, decide_eq_true_eq] at h
  unfold stopsAt
  rcases h with (rfl | rfl) | rfl <;> split <;> decide

namespace Spells

variable {ts us : List Token} {cs ds : List Char} {t : Token}

lemma single (ht : t.IsPrinted) : Spells [t] t.text := by
  have h : Spells [t] (t.text ++ []) := token ht nofun nil
  rwa [List.append_nil] at h

/-- Two texts can be joined where the second one ends the last token of the first. -/
lemma append (h : Spells ts cs) (h' : Spells us ds) (hbreak : ∀ c ∈ ds.head?, isBreak c = true) :
    Spells (ts ++ us) (cs ++ ds) := by
  induction h with
  | nil => exact h'
  | gap h ih => exact ih.gap
  | @token t ts cs ht hstop h ih =>
    rw [List.append_assoc]
    refine token ht (fun c hc => ?_) ih
    cases cs with
    | nil => exact t.stopsAt_of_isBreak (hbreak c hc)
    | cons d cs => exact hstop c hc

/-- No text is the text of two rows of tokens. -/
theorem unique (h : Spells ts cs) (h' : Spells us cs) : ts = us := by
  have happart : Distinguishes Terminal.all := .inl (Terminal.mem_all _)
  induction h generalizing us with
  | nil =>
    generalize hds : ([] : List Char) = ds at h'
    cases h' with
    | nil => rfl
    | gap => cases hds
    | token ht =>
      obtain ⟨c, cs, htext, -⟩ := ht.exists_cons
      simp [htext] at hds
  | @gap ts cs h ih =>
    generalize hds : ' ' :: cs = ds at h'
    cases h' with
    | nil => cases hds
    | gap h' =>
      obtain rfl := (List.cons.inj hds).2
      exact ih h'
    | token ht =>
      obtain ⟨c, _, htext, hc⟩ := ht.exists_cons
      rw [htext, List.cons_append] at hds
      obtain rfl := (List.cons.inj hds).1
      exact absurd hc (by decide)
  | @token t ts cs ht hstop h ih =>
    have hfirst := Token.first?_of_isPrinted ht happart (Terminal.mem_all _) hstop
    generalize hds : t.text ++ cs = ds at h' hfirst
    cases h' with
    | nil =>
      obtain ⟨c, _, htext, -⟩ := ht.exists_cons
      simp [htext] at hds
    | gap h' =>
      obtain ⟨c, _, htext, hc⟩ := ht.exists_cons
      rw [htext, List.cons_append] at hds
      obtain rfl := (List.cons.inj hds).1
      exact absurd hc (by decide)
    | @token u us cs' hu hstop' h' =>
      rw [Token.first?_of_isPrinted hu happart (Terminal.mem_all _) hstop'] at hfirst
      obtain rfl := Option.some.inj hfirst
      obtain rfl := List.append_cancel_left hds
      rw [ih h']

end Spells

/-! ### Reading them -/

namespace Parser

/-- What a token does where it is expected. -/
def advance (s : State) (t : Token) : Move :=
  if t.terminal ∈ s.phase.expected then step s t else refused

/-- What a row of tokens does. -/
def run (s : State) (ts : List Token) : Move := ts.foldlM advance s

variable {s s' : State} {t : Token} {ts us : List Token}

lemma run_nil : run s [] = .ok s := rfl

lemma run_cons (h : advance s t = .ok s') : run s (t :: ts) = run s' ts := by
  rw [run, List.foldlM_cons, h]
  rfl

lemma run_append (h : run s ts = .ok s') : run s (ts ++ us) = run s' us := by
  rw [run, List.foldlM_append]
  rw [run] at h
  rw [h]
  rfl

lemma run_cons_eq_ok (h : run s (t :: ts) = .ok s') :
    t.terminal ∈ s.phase.expected ∧ ∃ s₁, step s t = .ok s₁ ∧ run s₁ ts = .ok s' := by
  rw [run, List.foldlM_cons] at h
  unfold advance at h
  split at h
  · next ht =>
    cases hstep : step s t with
    | error e =>
      rw [hstep] at h
      cases h
    | ok s₁ =>
      rw [hstep] at h
      exact ⟨ht, s₁, rfl, h⟩
  · cases h

/-- Where no names are expected, the keywords that are do not begin each other. -/
lemma distinguishes_expected (p : Phase) : Distinguishes p.expected := by
  cases p with
  | operand o => cases o <;> decide
  | value e tail => cases tail <;> (simp only [Phase.expected]; decide)
  | qualifier n starAllowed => cases starAllowed <;> (simp only [Phase.expected]; decide)
  | joinWord left kind outerAllowed =>
    cases outerAllowed <;> (simp only [Phase.expected]; decide)
  | ended e => cases e <;> decide
  | _ => simp only [Phase.expected]; decide

lemma read_skip {last : Position} {q : Select} (w : List Char) {cs : List Char}
    (h : ∀ pos, read s last pos 0 cs = .ok q) (pos : Position) :
    read s last pos w.length (w ++ cs) = .ok q := by
  induction w generalizing pos with
  | nil => exact h pos
  | cons c w ih => exact ih _

/-- The first token of a text takes the state on. -/
lemma read_first {q : Select} {cs w : List Char} {c : Char} {s₁ : State}
    (hfirst : Token.first? s.phase.expected (t.text ++ cs) = some t) (htext : t.text = c :: w)
    (hc : isGap c = false) (hstep : step s t = .ok s₁)
    (h : ∀ last pos, read s₁ last pos 0 cs = .ok q) (last pos : Position) :
    read s last pos 0 (t.text ++ cs) = .ok q := by
  rw [htext, List.cons_append] at hfirst ⊢
  rw [read, hc, if_neg Bool.false_ne_true, hfirst]
  simp only [hstep, htext, List.length_cons, Nat.add_sub_cancel]
  exact read_skip w (h pos) _

/-- A printed token at the start of a text takes the state on. -/
lemma read_token {q : Select} {cs : List Char} {s₁ : State} (ht : t.IsPrinted)
    (hstop : ∀ c ∈ cs.head?, t.stopsAt c = true) (hexpected : t.terminal ∈ s.phase.expected)
    (hstep : step s t = .ok s₁) (h : ∀ last pos, read s₁ last pos 0 cs = .ok q)
    (last pos : Position) : read s last pos 0 (t.text ++ cs) = .ok q := by
  have hfirst := Token.first?_of_isPrinted ht (distinguishes_expected _) hexpected hstop
  obtain ⟨c, w, htext, hc⟩ := ht.exists_cons
  exact read_first hfirst htext hc hstep h last pos

/-- A text is read as the tokens that it is printed from. -/
theorem read_of_spells {q : Select} {cs : List Char} (h : Spells ts cs) (hrun : run s ts = .ok s')
    (hq : s'.finish? = some q) (last pos : Position) : read s last pos 0 cs = .ok q := by
  induction h generalizing s last pos with
  | nil =>
    cases hrun
    rw [read, hq]
  | @gap ts cs h ih =>
    rw [read, if_pos (by decide)]
    exact ih hrun _ _
  | @token t ts cs ht hstop h ih =>
    obtain ⟨hexpected, s₁, hstep, hrun⟩ := run_cons_eq_ok hrun
    exact read_token ht hstop hexpected hstep (ih hrun) last pos

end Parser

end GraphSelect
