import GraphSelect.Proofs.SubQueries
import GraphSelect.Proofs.WellScoped
import Mathlib.Algebra.Group.Nat.Defs

/-!
Whole numbers in orderings.

A whole number that an ordering names is the place of a select item, counted after the stars among
the items have been expanded, and a query with a number that is no place is refused. This is decided
by the type of the number and not by its value. A number that does not fit 32 bits has another type
than a shorter one, so it is taken for a constant, and is refused nowhere. The smallest number of 32
bits is among them, since its type is that of the number behind the sign.
-/

namespace GraphSelect

/-- How many items a query selects when its stars have been expanded. -/
def Select.itemCount (c : Catalog) (q : Select) : Outcome Nat :=
  (resolveTables c q.source).map fun (ts, _) => (q.expand ts).items.length

/-- A number that is the place of a select item, counted from one. -/
def Select.HasPlace (c : Catalog) (q : Select) (n : Int) : Prop :=
  ∃ k, q.itemCount c = .ok k ∧ 1 ≤ n ∧ n ≤ k

/-- The second query is the first one without an entry of an ordering. The ordering is that of `s`,
which is the query itself or a sub-query. -/
def Select.LacksKey (q s : Select) (before after : List (SortKey Node)) (q' : Select) : Prop :=
  Node.Swaps s { s with orderBy := before ++ after } .query (.select q) (.select q')

section

variable {c : Catalog} {ts : Tables} {q r s : Select} {before after : List (SortKey Node)}
  {l : Literal} {descending : Bool} {n : Int}

lemma itemCount_of_resolvesTo (h : q.ResolvesTo c ts r) : q.itemCount c = .ok r.items.length := by
  have htables : ∃ source, resolveTables c q.source = .ok (ts, source) := by
    rcases h.source with ⟨hnone, -, rfl⟩ | ⟨m, m', hm, -, hm'⟩
    · exact ⟨none, by rw [hnone]; rfl⟩
    · exact ⟨some m', by rw [hm, resolveTables, hm', Outcome.map_ok]⟩
  obtain ⟨source, hsource⟩ := htables
  rw [Select.itemCount, hsource, Outcome.map_ok, ← (forall₂_resolveItems h.items).length_eq]
  rfl

lemma hasPlace_iff (h : q.ResolvesTo c ts r) : q.HasPlace c n ↔ 1 ≤ n ∧ n ≤ r.items.length := by
  simp [Select.HasPlace, itemCount_of_resolvesTo h]

/-! ### The types of numbers -/

/-- The type of a whole number in an ordering tells whether it fits 32 bits. -/
lemma type_of_ordering {text : String} (hq : Parser.parse text = .ok q)
    (hs : (Node.select s).StandsIn (.select q))
    (horder : s.orderBy = before ++ ⟨.literal l, descending⟩ :: after) (hl : l.value = .int n) :
    l.type = if n.natAbs < 2 ^ 31 then .integer else .bigint := by
  have hparsed : (Node.select q).IsParsed False .query :=
    Parser.isParsed_of_parse (fun _ _ => nofun) hq
  have hstands : (Node.literal l).StandsIn (.select s) :=
    .child (by simp [Node.children, horder]) .self
  have hliteral := hparsed.item_of_standsIn (hstands.trans hs) rfl
  have htype : l.type = l.value.spelledType := by
    cases hliteral with
    | item h =>
      cases h with
      | literal h => exact h.type_eq
  have hshort : Literal.isShort n.natAbs = decide (n.natAbs < 2 ^ 31) := by
    simp only [Literal.isShort, Bool.and_eq_decide, decide_eq_true_eq, decide_eq_decide]
    omega
  simp only [htype, hl, Value.spelledType, hshort, decide_eq_true_eq]

/-! ### Resolving a number -/

/-- A number of 32 bits that is ordered by is a place wherever the query resolves. -/
lemma hasPlace_of_resolve (hr : resolveSelect c q = .ok r)
    (horder : q.orderBy = before ++ ⟨.literal l, descending⟩ :: after) (hl : l.value = .int n)
    (htype : l.type = .integer) : q.HasPlace c n := by
  obtain ⟨ts, hts⟩ := resolveSelect_eq_ok hr
  obtain ⟨named, -, hkeys⟩ := hts.orderBy
  obtain ⟨key, -, hkey⟩ := exists_right_of_forall₂ (forall₂_resolveKeys hkeys)
    ⟨.literal l, descending⟩ (by simp [horder])
  have hplace : isPlace l.value r.items.length = true := by
    generalize key.expression = m at hkey
    cases hkey with
    | literal h => exact h htype
    | expression _ hliteral => exact absurd rfl (hliteral l)
  rw [hl, isPlace_int] at hplace
  exact (hasPlace_iff hts).2 hplace

/-- What resolves without a number that it is ordered by fails with it if it has to be a place and
is none, and otherwise resolves with it. -/
lemma resolve_number (hr : resolveSelect c { q with orderBy := before ++ after } = .ok r)
    (horder : q.orderBy = before ++ ⟨.literal l, descending⟩ :: after) (hl : l.value = .int n) :
    (l.type = .integer → ¬ q.HasPlace c n →
      resolveSelect c q = .fault (.unknownIdentifier (Text.ofInt n))) ∧
    ((l.type = .integer → q.HasPlace c n) → ∃ keys keys', r.orderBy = keys ++ keys' ∧
      resolveSelect c q = .ok { r with orderBy := keys ++ ⟨.literal l, descending⟩ :: keys' }) := by
  obtain ⟨ts, named, hts, hnamed, hresolve⟩ := resolveSelect_orderBy hr
  obtain ⟨named', hnamed', hkeys⟩ := hts.orderBy
  obtain rfl : named = named' := Except.ok.inj (hnamed.symm.trans hnamed')
  rw [resolveKeys_append] at hkeys
  obtain ⟨keys, hbefore, hkeys⟩ := Outcome.bind_eq_ok.1 hkeys
  obtain ⟨keys', hafter, hkeys⟩ := Outcome.bind_eq_ok.1 hkeys
  have hplace : q.HasPlace c n ↔ isPlace l.value r.items.length = true := by
    have hcount : Select.HasPlace c { q with orderBy := before ++ after } n ↔ _ := hasPlace_iff hts
    rw [hl, isPlace_int]
    exact hcount
  have hq : resolveSelect c q = (resolveKeys c ts named r.items.length
      (before ++ ⟨.literal l, descending⟩ :: after)).map fun keys => { r with orderBy := keys } :=
    horder ▸ hresolve q.orderBy
  rw [hq, resolveKeys_append, hbefore, Outcome.ok_bind, resolveKeys]
  constructor
  · intro htype hnot
    rw [hplace, Bool.not_eq_true] at hnot
    rw [if_pos ⟨htype, hnot⟩, hl]
    rfl
  · intro hin
    refine ⟨keys, keys', (Except.ok.inj hkeys).symm, ?_⟩
    rw [if_neg, hafter]
    · rfl
    · rintro ⟨htype, hnot⟩
      simp [hplace.1 (hin htype)] at hnot

/-! ### Texts with numbers in orderings -/

/-- **A number that an ordering names is the place of a select item, unless it is long.** A query
with a number of 32 bits in one of its orderings, or in one of a sub-query, is not converted if the
number is no place of a select item, and the number is what it is refused for if nothing else is
wrong with it. A longer number is never refused, but ordered by as a constant. -/
theorem ordering_places {x : Converter} {text : String} {q s : Select}
    {before after : List (SortKey Node)} {l : Literal} {descending : Bool} {n : Int}
    (hq : Parser.parse text = .ok q) (hs : (Node.select s).StandsIn (.select q))
    (horder : s.orderBy = before ++ ⟨.literal l, descending⟩ :: after) (hl : l.value = .int n) :
    (n.natAbs < 2 ^ 31 → ¬ s.HasPlace x.catalog n →
      (∀ p, x.convert text ≠ .ok p) ∧
      (∃ q', q.LacksKey s before after q') ∧
      ∀ q' r, q.LacksKey s before after q' → q'.resolve x.catalog = .ok r →
        q.resolve x.catalog = .fault (.unknownIdentifier (Text.ofInt n)) ∧
        x.convert text = .error (.failed (.fault (.unknownIdentifier (Text.ofInt n))))) ∧
    (2 ^ 31 ≤ n.natAbs →
      (∀ r, Select.resolve x.catalog { s with orderBy := before ++ after } = .ok r →
        ∃ keys keys', r.orderBy = keys ++ keys' ∧ s.resolve x.catalog =
          .ok { r with orderBy := keys ++ ⟨.literal l, descending⟩ :: keys' }) ∧
      ∀ items, sortOperand items (.literal l) = .ok (.constant l)) := by
  have htype := type_of_ordering hq hs horder hl
  obtain ⟨q', hq'⟩ := (Parser.isWritten_of_parse hq).exists_swaps hs
    { s with orderBy := before ++ after }
  refine ⟨fun hshort hnot => ⟨fun p hp => ?_, ⟨q', hq'⟩, fun q' r hswaps hr => ?_⟩,
    fun hlong => ?_⟩
  · rw [if_pos hshort] at htype
    obtain ⟨q₁, r, hq₁, hr, -⟩ := Converter.convert_eq_ok hp
    obtain rfl : q = q₁ := Except.ok.inj (hq.symm.trans hq₁)
    obtain ⟨rs, hrs⟩ := (hangsOn_of_swaps hq' q q' rfl rfl).ok r hr
    exact hnot (hasPlace_of_resolve hrs horder hl htype)
  · rw [if_pos hshort] at htype
    obtain ⟨rs, hrs⟩ := (hangsOn_of_swaps hswaps.symm q' q rfl rfl).ok r hr
    have hfault : q.resolve x.catalog = .fault (.unknownIdentifier (Text.ofInt n)) :=
      (hangsOn_of_swaps hswaps q q' rfl rfl).error _ r
        ((resolve_number hrs horder hl).1 htype hnot) hr
    have hconvert : (x.resolve q).bind x.plan =
        Outcome.fault (.unknownIdentifier (Text.ofInt n)) := by
      rw [Converter.resolve, hfault]
      rfl
    exact ⟨hfault, by rw [Converter.convert_of_parse hq, hconvert]; rfl⟩
  · rw [if_neg (by omega)] at htype
    exact ⟨fun r hr => (resolve_number hr horder hl).2 (by simp [htype]),
      fun items => by simp [sortOperand, htype]⟩

end

namespace People

/-- Whether a query is ordered by just one number, and selects so many items. -/
def isOrderedBy (n : Int) (count : Nat) (q : Select) : Bool :=
  (match q.orderBy with
    | [⟨.literal l, _⟩] => match l.value with
      | .int m => m = n
      | _ => false
    | _ => false) && (q.itemCount catalog).toOption = some count

lemma exists_of_isOrderedBy {n : Int} {count : Nat} {q : Select}
    (h : isOrderedBy n count q = true) :
    (∃ l descending, q.orderBy = [⟨.literal l, descending⟩] ∧ l.value = .int n) ∧
      (n < 1 ∨ count < n → ¬ q.HasPlace catalog n) := by
  simp only [isOrderedBy, Bool.and_eq_true, decide_eq_true_eq] at h
  obtain ⟨horder, hcount⟩ := h
  constructor
  · split at horder
    · next l descending hq =>
      split at horder
      · next m hm => exact ⟨l, descending, hq, by simpa [hm] using horder⟩
      · cases horder
    · cases horder
  · rintro hn ⟨k, hk, hplace⟩
    obtain rfl : k = count := Except.ok.inj (hk.symm.trans (Outcome.eq_ok_of_toOption hcount))
    omega

/-- A star for two columns. -/
def byThird : String := "SELECT * FROM person ORDER BY 3"

theorem refuses_byThird : ∃ q, Parser.parse byThird = .ok q ∧ ¬ q.HasPlace catalog 3 ∧
    converter.convert byThird = .error (.failed (.fault (.unknownIdentifier "3"))) := by
  have hcheck : (match Parser.parse byThird with
    | .ok q => isOrderedBy 3 2 q && (Select.resolve catalog { q with orderBy := [] }).isOk
    | .error _ => false) = true := by decide +kernel
  split at hcheck
  · next q hq =>
    rw [Bool.and_eq_true] at hcheck
    obtain ⟨⟨⟨l, descending, horder, hl⟩, hplace⟩, hok⟩ := hcheck.imp_left exists_of_isOrderedBy
    have hnot := hplace (.inr (by decide))
    cases hr : Select.resolve catalog { q with orderBy := [] } with
    | error e =>
      rw [hr] at hok
      cases hok
    | ok r =>
      have hplaces := ordering_places (x := converter) hq .self
        (horder.trans (List.nil_append _).symm) hl
      obtain ⟨-, -, hrefused⟩ := hplaces.1 (by decide) hnot
      exact ⟨q, hq, hnot, (hrefused _ r .here hr).2⟩
  · cases hcheck

/-- A number of more than 32 bits. -/
def byLongNumber : String := "SELECT name FROM person ORDER BY 3000000000"

/-- One item is selected, and the query is ordered by the 3000000000th. -/
theorem converts_byLongNumber : ∃ q l descending, Parser.parse byLongNumber = .ok q ∧
    q.orderBy = [⟨.literal l, descending⟩] ∧ l.value = .int 3000000000 ∧
    ¬ q.HasPlace catalog 3000000000 ∧ (converter.convert byLongNumber).isOk = true := by
  have hok : (converter.convert byLongNumber).isOk = true := by decide +kernel
  have hcheck : (match Parser.parse byLongNumber with
    | .ok q => isOrderedBy 3000000000 1 q
    | .error _ => false) = true := by decide +kernel
  split at hcheck
  · next q hq =>
    obtain ⟨⟨l, descending, horder, hl⟩, hplace⟩ := exists_of_isOrderedBy hcheck
    exact ⟨q, l, descending, hq, horder, hl, hplace (.inr (by decide)), hok⟩
  · cases hcheck

end People

end GraphSelect
