import GraphSelect.Proofs.LetterCase
import GraphSelect.Proofs.Renaming

/-!
Queries written in another case.

Outside quotes, the letters `A` to `Z` may be written in either case. Two texts that differ in no
more than that are read side by side: they begin with tokens that are the same but for the case of
letters, so the parser goes on to states that differ in names only, and so up to their ends.
-/

namespace GraphSelect.Parser

open Text

/-- Whether two texts are the same but for the case of the letters `A` to `Z` outside quotes. A pair
of quotes between quotes closes and opens them, with no letter in between. -/
def SameButCase (text text' : String) : Prop :=
  lowerUnquoted none text.toList = lowerUnquoted none text'.toList

instance (text text' : String) : Decidable (SameButCase text text') :=
  inferInstanceAs (Decidable (_ = _))

example : SameButCase "SELECT a, 'b'" "select A, 'b'" := by decide

example : ¬ SameButCase "SELECT a, 'b'" "select A, 'B'" := by decide

/-- Whether a name stands in a text without quotes. -/
def IsUnquoted (text name : String) : Prop := ⟨.name, name.toList⟩ ∈ tokens text

/-- Names in two texts that are the same, or are the same but for the case of the letters `A` to `Z`
and have no quotes around them. -/
def SameName (text text' name name' : String) : Prop :=
  name = name' ∨ (IsUnquoted text name ∧ IsUnquoted text' name' ∧
    name.toList.map Char.toLower = name'.toList.map Char.toLower)

variable {R : String → String → Prop}

lemma upper_eq_of_toLower {n n' : String}
    (h : n.toList.map Char.toLower = n'.toList.map Char.toLower) : upper n = upper n' := by
  have hupper (m : String) :
      upper m = String.ofList ((m.toList.map Char.toLower).flatMap upperChar) := by
    simp [upper, List.flatMap_map]
  rw [hupper, hupper, h]

lemma spellsAlike_sameName (text text' : String) : SpellsAlike (SameName text text') where
  star := .inl rfl
  upper := by
    rintro n n' (rfl | ⟨-, -, h⟩)
    · rfl
    · exact upper_eq_of_toLower h

/-- First tokens that are the same but for the case of letters differ in a name only. -/
lemma renames_token {expected expected' : List Terminal} {cs cs' : List Char} {t t' : Token}
    (h : Token.first? expected cs = some t) (h' : Token.first? expected' cs' = some t')
    (hfolded : t.folded = t'.folded) (hlowered : t.lowered = t'.lowered) (hrefl : ∀ n, R n n)
    (hname : t.terminal = .name → R (String.ofList t.text) (String.ofList t'.text)) :
    t.Renames R t' where
  terminal := (Token.terminal_eq_of_folded hfolded).symm
  name := by
    unfold name?
    rw [← Token.terminal_eq_of_folded hfolded]
    cases hterminal : t.terminal with
    | name => exact .some (hname hterminal)
    | quotedName =>
      rw [Token.eq_of_lowered hlowered (by simp [Token.isQuoted, hterminal])]
      exact .some (hrefl _)
    | _ => exact .none
  literal := (Token.literal?_eq h h' hfolded hlowered).symm
  size := by
    intro hinteger
    have hinteger' : t'.terminal = .integer := by
      rw [← Token.terminal_eq_of_folded hfolded, hinteger]
    rw [← Token.folded_eq_self h' (.inl hinteger'), ← hfolded,
      Token.folded_eq_self h (.inl hinteger)]

/-- Texts that are the same but for the case of letters are read alike. -/
theorem exists_reading (hR : SpellsAlike R) (hrefl : ∀ n, R n n) {s s' : State}
    (hs : s.Renames R s') {skip : Nat} {cs cs' : List Char} {ts : List Token} {q : Select}
    (h : Reading q s skip cs ts) (hlength : cs.length = cs'.length)
    (hcs : lowerUnquoted none (cs.drop skip) = lowerUnquoted none (cs'.drop skip))
    (hname : ∀ t ∈ ts, ∀ t' ∈ tokensFrom s' skip cs', t.terminal = .name →
      t.lowered = t'.lowered → R (String.ofList t.text) (String.ofList t'.text)) :
    ∃ q' ts', Reading q' s' skip cs' ts' ∧ Select.Renames R q q' ∧
      ts.map Token.lowered = ts'.map Token.lowered := by
  induction h generalizing s' cs' with
  | ending hq =>
    obtain rfl := List.length_eq_zero_iff.1 hlength.symm
    obtain ⟨q', hq', hrenames⟩ := exists_finish? hs hq
    exact ⟨q', [], .ending hq', hrenames, rfl⟩
  | skipped _ ih =>
    obtain ⟨c', cs', rfl⟩ := List.exists_cons_of_length_eq_add_one hlength.symm
    obtain ⟨q', ts', hreading, hq, hts⟩ := ih hs (Nat.succ.inj hlength) hcs hname
    exact ⟨q', ts', .skipped hreading, hq, hts⟩
  | gap hc _ ih =>
    obtain ⟨c', cs', rfl⟩ := List.exists_cons_of_length_eq_add_one hlength.symm
    rw [List.drop_zero, List.drop_zero] at hcs
    have hc' := (isGap_eq_of_lowerUnquoted hcs).symm.trans hc
    rw [tokensFrom_gap hc'] at hname
    rw [lowerUnquoted_of_isGap hc, lowerUnquoted_of_isGap hc'] at hcs
    obtain ⟨q', ts', hreading, hq, hts⟩ :=
      ih hs (Nat.succ.inj hlength) (List.cons.inj hcs).2 hname
    exact ⟨q', ts', .gap hc' hreading, hq, hts⟩
  | @token s next t c cs ts hc hfirst hstep _ ih =>
    obtain ⟨c', cs', rfl⟩ := List.exists_cons_of_length_eq_add_one hlength.symm
    rw [List.drop_zero, List.drop_zero] at hcs
    have hc' := (isGap_eq_of_lowerUnquoted hcs).symm.trans hc
    obtain ⟨t', hfirst', hfolded, hlowered, r, r', hr, hr', hrest⟩ :=
      Token.exists_first? hcs hfirst
    have hsize := Token.length_eq_of_folded hfolded
    have hskip : lowerUnquoted none (cs.drop (t.text.length - 1)) =
        lowerUnquoted none (cs'.drop (t'.text.length - 1)) := by
      rw [Token.drop_of_first? hfirst hr, Token.drop_of_first? hfirst' hr', hrest]
    have hfirst₂ := hfirst'
    rw [renames_expected hs.phase] at hfirst₂
    have htoken : t.Renames R t' :=
      renames_token hfirst hfirst' hfolded hlowered hrefl fun hterminal =>
        hname t List.mem_cons_self t' (mem_tokensFrom hc' hfirst₂) hterminal hlowered
    obtain ⟨next', hstep', hnext⟩ := exists_step hR hs htoken hstep
    rw [tokensFrom_token hc' hfirst₂ hstep'] at hname
    rw [← hsize] at hname hskip
    obtain ⟨q', ts', hreading, hq, hts⟩ := ih hnext (Nat.succ.inj hlength) hskip
      fun u hu u' hu' => hname u (.tail _ hu) u' (.tail _ hu')
    rw [hsize] at hreading
    exact ⟨q', t' :: ts', .token hc' hfirst₂ hstep' hreading, hq, by simp [hlowered, hts]⟩

/-- **Queries are read alike in either case.** If a text is a query, then so is every text that
differs from it only in the case of the letters `A` to `Z` outside quotes. Both are read as the same
tokens but for the case of those that are not quoted, and so to the same tree but for the case of
names that are not. The keywords, functions, types and constants are the same. -/
theorem parse_recased {text text' : String} {q : Select} (hcase : SameButCase text text')
    (h : parse text = .ok q) :
    ∃ q', parse text' = .ok q' ∧ Select.Renames (SameName text text') q q' ∧
      (tokens text).map Token.lowered = (tokens text').map Token.lowered := by
  have hlength : text.toList.length = text'.toList.length := by
    simpa using congrArg List.length (map_foldLetter_eq hcase)
  have hstart : State.initial.Renames (SameName text text') .initial := ⟨.start, .nil⟩
  have hname : ∀ t ∈ tokens text, ∀ t' ∈ tokens text', t.terminal = .name →
      t.lowered = t'.lowered →
      SameName text text' (String.ofList t.text) (String.ofList t'.text) := by
    rintro ⟨terminal, w⟩ ht ⟨terminal', w'⟩ ht' hterminal hlowered
    obtain rfl : terminal = .name := hterminal
    obtain ⟨rfl, hw⟩ := Token.mk.inj hlowered
    refine .inr ⟨?_, ?_, ?_⟩
    · rwa [IsUnquoted, String.toList_ofList]
    · rwa [IsUnquoted, String.toList_ofList]
    · rw [String.toList_ofList, String.toList_ofList]
      exact hw
  obtain ⟨q', ts', hreading, hq, hts⟩ := exists_reading (spellsAlike_sameName text text')
    (fun _ => .inl rfl) hstart (reading_of_read h) hlength hcase hname
  refine ⟨q', hreading.read_eq .start .start, hq, ?_⟩
  rwa [← hreading.tokensFrom_eq] at hts

/-- A query as it is typed. -/
def typedQuery : String :=
  "select \"Key\" as k, count(Age) from People where Name like 'Ab%' or Age > 1E2"

/-- The same query in another case. -/
def retypedQuery : String :=
  "SELECT \"Key\" AS K, Count(AGE) FROM peoPLE WHERE nAME LIKE 'Ab%' OR age > 1e2"

def agedPeople : Select :=
  { Select.empty with
    items := [.named (column ["Key"]) "k", functionCall "COUNT" false [column ["Age"]]]
    source := some (.table ⟨"People", none⟩)
    filter := some (.apply .or
      [.apply .like [column ["Name"], .literal (.ofChars "Ab%")],
       .apply (.comparison .greater) [column ["Age"], .literal (.ofApproximate "1E2")]]) }

theorem parse_retypedQuery :
    SameButCase typedQuery retypedQuery ∧ parse typedQuery = .ok agedPeople ∧
      ∃ q', parse retypedQuery = .ok q' ∧
        Select.Renames (SameName typedQuery retypedQuery) agedPeople q' ∧
        (tokens typedQuery).map Token.lowered = (tokens retypedQuery).map Token.lowered :=
  have hcase : SameButCase typedQuery retypedQuery := by decide
  have hparse : parse typedQuery = .ok agedPeople := rfl
  ⟨hcase, hparse, parse_recased hcase hparse⟩

end GraphSelect.Parser
