import GraphSelect.Proofs.Clauses
import GraphSelect.Proofs.Grammar
import GraphSelect.Proofs.Groups
import GraphSelect.Proofs.Numbers
import GraphSelect.Proofs.Resolution

/-!
What the texts of expressions show.

Rows are grouped by the texts of expressions, and of two entries with one text only the first becomes
steps. So an aggregate could hide in an entry whose text is that of an entry without one. It cannot,
as long as quotes stand in texts only: then a reader who goes through the text and passes over what
is quoted sees the aggregates of an expression, and sees none where there is none.
-/

namespace GraphSelect

/-! ### The texts of calls -/

namespace Node

/-- The texts of several nodes. -/
def Texts (ns : List Node) (ts : List String) : Prop :=
  List.Forall₂ (fun n t => n.sql? = some t) ns ts

lemma texts_of_mapM {ns : List Node} {ts : List String}
    (h : (ns.map sql?).mapM id = some ts) : Texts ns ts := by
  induction ns generalizing ts with
  | nil =>
    cases h
    exact .nil
  | cons n ns ih =>
    simp only [List.map_cons, List.mapM_cons, id, Option.bind_eq_bind, Option.bind_eq_some_iff,
      Option.pure_def, Option.some.injEq] at h
    obtain ⟨t, ht, ts, hts, rfl⟩ := h
    exact .cons ht (ih hts)

/-- The text of a call, put together from those of its operands. -/
inductive CallText (c : Call) : List Node → String → Prop
  | cast {x y : Node} {rest : List Node} {a b : String} (hc : c.operator = .cast)
      (hx : x.sql? = some a) (hy : y.sql? = some b) :
      CallText c (x :: y :: rest) ("CAST(" ++ x.bracket a ++ " AS " ++ b ++ ")")
  | query {n : Node} {rest : List Node} {a : String} (hc : c.operator = .scalarQuery)
      (hn : n.sql? = some a) : CallText c (n :: rest) ("(" ++ a ++ ")")
  | function {ns : List Node} {ts : List String} (hc : c.operator.form = .function)
      (hns : Texts ns ts) :
      CallText c ns
        (c.operator.name ++ "(" ++ (if c.distinct then "DISTINCT " else "") ++ commas ts ++ ")")
  | before {x : Node} {a : String} (hc : c.operator.form = .before) (hx : x.sql? = some a) :
      CallText c [x] (c.operator.name ++ (if isWord c.operator then " " else "") ++ x.bracket a)
  | after {x : Node} {a : String} (hc : c.operator.form = .after) (hx : x.sql? = some a) :
      CallText c [x] (x.bracket a ++ " " ++ c.operator.name)
  | between {x y : Node} {a b : String} (hc : c.operator.form ≠ .function)
      (hx : x.sql? = some a) (hy : y.sql? = some b) :
      CallText c [x, y] (x.bracket a ++ " " ++ c.operator.name ++ " " ++ y.bracket b)
  | other {ns : List Node} {ts : List String} (hc : c.operator.form ≠ .function)
      (hns : Texts ns ts) : CallText c ns (c.operator.name ++ "(" ++ commas ts ++ ")")

lemma callText_of_sql? {c : Call} {ns : List Node} {text : String}
    (h : (Node.call c ns).sql? = some text) : CallText c ns text := by
  rw [sql?_call] at h
  unfold callText? at h
  split at h <;> simp only [Option.bind_eq_bind, Option.bind_eq_some_iff, Option.pure_def,
    Option.some.injEq, reduceCtorEq] at h
  case h_1 hc hplain hnested =>
    obtain ⟨b, hb, t, ht, rfl⟩ := h
    obtain ⟨x, rest, rfl, -, hrest⟩ := List.map_eq_cons_iff.1 hplain
    obtain ⟨y, rest, rfl, hy, -⟩ := List.map_eq_cons_iff.1 hrest
    obtain ⟨rfl, -⟩ := List.cons.inj hnested
    obtain ⟨a, ha, rfl⟩ := Option.map_eq_some_iff.1 hb
    exact .cast hc ha (hy.trans ht)
  case h_3 hc hplain =>
    obtain ⟨a, ha, rfl⟩ := h
    obtain ⟨n, rest, rfl, hn, -⟩ := List.map_eq_cons_iff.1 hplain
    exact .query hc (hn.trans ha)
  case h_5 hc _ _ _ _ =>
    obtain ⟨ts, hts, rfl⟩ := h
    exact .function hc (texts_of_mapM hts)
  case h_6 hc hnested _ _ _ _ =>
    obtain ⟨b, hb, rfl⟩ := h
    obtain ⟨x, rfl, hx⟩ := List.map_eq_singleton_iff.1 hnested
    obtain ⟨a, ha, rfl⟩ := Option.map_eq_some_iff.1 (hx.trans hb)
    exact .before hc ha
  case h_7 hc hnested _ _ _ _ =>
    obtain ⟨b, hb, rfl⟩ := h
    obtain ⟨x, rfl, hx⟩ := List.map_eq_singleton_iff.1 hnested
    obtain ⟨a, ha, rfl⟩ := Option.map_eq_some_iff.1 (hx.trans hb)
    exact .after hc ha
  case h_8 hnested _ hc _ _ _ =>
    obtain ⟨b, hb, b', hb', rfl⟩ := h
    obtain ⟨x, rest, rfl, rfl, hrest⟩ := List.map_eq_cons_iff.1 hnested
    obtain ⟨y, rfl, rfl⟩ := List.map_eq_singleton_iff.1 hrest
    obtain ⟨a, ha, rfl⟩ := Option.map_eq_some_iff.1 hb
    obtain ⟨a', ha', rfl⟩ := Option.map_eq_some_iff.1 hb'
    exact .between hc ha ha'
  case h_9 hc _ _ _ _ _ _ =>
    obtain ⟨ts, hts, rfl⟩ := h
    exact .other hc (texts_of_mapM hts)

end Node

/-! ### Reading a text -/

/-- How a reader stands in a text. -/
inductive Scan where
  /-- An aggregate or a query has begun. -/
  | alarm
  | quoted
  /-- Outside of quotes, behind the begin of a word. -/
  | plain (word : List Char)
  deriving DecidableEq

namespace Scan

/-- The word that begins a query, if a blank follows. -/
def query : List Char := ['S', 'E', 'L', 'E', 'C', 'T']

/-- Whether a word begins an aggregate, if a bracket follows. -/
def isAggregate (word : List Char) : Bool :=
  Aggregate.all.any (·.name.toList = word)

def step : Scan → Char → Scan
  | .alarm, _ => .alarm
  | .quoted, c => if c = '\'' then .plain [] else .quoted
  | .plain word, c =>
    if c = '\'' then .quoted
    else if c = '(' then if isAggregate word then .alarm else .plain []
    else if c = ' ' then if word = query then .alarm else .plain []
    else if c = '-' then .plain []
    else .plain (word ++ [c])

/-- Reads a text on from where the reader stands. -/
def after (z : Scan) (text : String) : Scan :=
  text.toList.foldl step z

@[simp] lemma after_append (z : Scan) (s t : String) : z.after (s ++ t) = (z.after s).after t := by
  simp [after]

@[simp] lemma after_alarm (t : String) : alarm.after t = .alarm := by
  rw [after]
  induction t.toList with
  | nil => rfl
  | cons c cs ih => exact ih

/-- Where something new may begin. -/
def IsOpen (z : Scan) : Prop := z = .alarm ∨ z = .plain []

variable {z : Scan}

lemma step_ne_quoted (hz : z ≠ .quoted) {c : Char} (hc : c ≠ '\'') : z.step c ≠ .quoted := by
  cases z with
  | alarm => exact hz
  | quoted => exact absurd rfl hz
  | plain word =>
    simp only [step, if_neg hc]
    repeat' split
    all_goals simp

lemma foldl_ne_quoted (hz : z ≠ .quoted) {cs : List Char} (hcs : '\'' ∉ cs) :
    cs.foldl step z ≠ .quoted := by
  induction cs generalizing z with
  | nil => exact hz
  | cons c cs ih =>
    simp only [List.mem_cons, not_or] at hcs
    exact ih (step_ne_quoted hz (Ne.symm hcs.1)) hcs.2

/-- Behind a bracket, a blank and a minus something new may begin. -/
lemma isOpen_step (hz : z ≠ .quoted) {c : Char} (hc : c ∈ ['(', ' ', '-']) :
    (z.step c).IsOpen := by
  cases z with
  | alarm => exact .inl rfl
  | quoted => exact absurd rfl hz
  | plain word =>
    simp only [List.mem_cons, List.not_mem_nil, or_false] at hc
    rcases hc with rfl | rfl | rfl <;> simp only [step, IsOpen, Char.reduceEq, if_true, if_false]
    · split <;> simp
    · split <;> simp
    · simp

end Scan

/-! ### What shows -/

/-- Text behind which something new may begin. -/
def Opens (t : String) : Prop := ∀ z : Scan, z ≠ .quoted → (z.after t).IsOpen

/-- A text of which all quotes are closed, and that shows an aggregate if it has one. -/
def Shows (hasAggregate : Bool) (t : String) : Prop :=
  ∀ z : Scan, z.IsOpen → z.after t ≠ .quoted ∧ (hasAggregate = true → z.after t = .alarm)

/-- A text of which all quotes are closed, and that shows neither an aggregate nor a query. -/
def Quiet (t : String) : Prop :=
  ∃ word, word ≠ Scan.query ∧ (Scan.plain []).after t = .plain word

lemma Shows.not_quiet {t : String} (h : Shows true t) : ¬ Quiet t := by
  rintro ⟨word, -, ht⟩
  have := (h (.plain []) (.inr rfl)).2 rfl
  simp [ht] at this

lemma Scan.IsOpen.ne_quoted {z : Scan} (hz : z.IsOpen) : z ≠ .quoted := by
  rcases hz with rfl | rfl <;> simp

section

variable {a b : Bool} {s t sep : String}

lemma opens_of_concat (cs : List Char) {c : Char} (hc : c ∈ ['(', ' ', '-'])
    (ht : t.toList = cs ++ [c]) (hcs : '\'' ∉ cs) : Opens t := by
  intro z hz
  rw [Scan.after, ht, List.foldl_append]
  exact Scan.isOpen_step (Scan.foldl_ne_quoted hz hcs) hc

lemma Opens.prepend (hs : '\'' ∉ s.toList) (ht : Opens t) : Opens (s ++ t) := by
  intro z hz
  rw [Scan.after_append]
  exact ht _ (Scan.foldl_ne_quoted hz hs)

lemma shows_of_notMem (ht : '\'' ∉ t.toList) : Shows false t :=
  fun _ hz => ⟨Scan.foldl_ne_quoted hz.ne_quoted ht, nofun⟩

lemma Quiet.shows (ht : Quiet t) : Shows false t := by
  obtain ⟨word, -, ht⟩ := ht
  rintro z (rfl | rfl) <;> simp [ht]

lemma Shows.prepend (hs : Opens s) (ht : Shows a t) : Shows a (s ++ t) := by
  intro z hz
  rw [Scan.after_append]
  exact ht _ (hs z hz.ne_quoted)

lemma Shows.concat (hs : Shows a s) (ht : '\'' ∉ t.toList) : Shows a (s ++ t) := by
  intro z hz
  obtain ⟨hopen, halarm⟩ := hs z hz
  rw [Scan.after_append]
  exact ⟨Scan.foldl_ne_quoted hopen ht, fun ha => by rw [halarm ha, Scan.after_alarm]⟩

lemma Shows.append (hs : Shows a s) (hsep : Opens sep) (ht : Shows b t) :
    Shows (a || b) (s ++ sep ++ t) := by
  intro z hz
  obtain ⟨hopen, halarm⟩ := hs z hz
  obtain ⟨hopen', halarm'⟩ := ht _ (hsep _ hopen)
  simp only [Scan.after_append]
  refine ⟨hopen', fun h => ?_⟩
  rcases Bool.or_eq_true_iff.1 h with ha | hb
  · rw [halarm ha, Scan.after_alarm, Scan.after_alarm]
  · exact halarm' hb

lemma shows_commas {ns : List Node} {f : Node → Bool} {ts : List String}
    (h : List.Forall₂ (fun n t => Shows (f n) t) ns ts) : Shows (ns.any f) (Node.commas ts) := by
  induction h with
  | nil => exact shows_of_notMem (by simp [Node.commas])
  | @cons n t ns ts ht hts ih =>
    cases hts with
    | nil => simpa [Node.commas] using ht
    | cons =>
      rw [List.any_cons, Node.commas, String.intercalate_cons_cons]
      exact ht.append (opens_of_concat [','] (by decide) rfl (by decide)) ih

lemma Shows.bracket (n : Node) (ht : Shows a t) : Shows a (n.bracket t) := by
  unfold Node.bracket
  split
  · exact (ht.prepend (opens_of_concat [] (by decide) rfl (by decide))).concat (by decide)
  · exact ht

/-- Behind a blank or a comma and a blank, a text is read as if it stood alone. -/
lemma Quiet.append (hs : Quiet s) (hsep : (Scan.plain []).after sep = .plain []) (ht : Quiet t) :
    Quiet (s ++ (" " ++ sep) ++ t) := by
  obtain ⟨word, hword, hs⟩ := hs
  obtain ⟨word', hword', ht⟩ := ht
  refine ⟨word', hword', ?_⟩
  have hblank : (Scan.plain word).after " " = .plain [] := by
    simp [Scan.after, Scan.step, hword]
  simp [hs, hblank, hsep, ht]

lemma Quiet.prepend (hs : (Scan.plain []).after s = .plain []) (ht : Quiet t) : Quiet (s ++ t) := by
  obtain ⟨word, hword, ht⟩ := ht
  exact ⟨word, hword, by simp [hs, ht]⟩

end

/-! ### Calls -/

/-- Operators over operands of the same row or group. -/
def Operator.isRowwise (op : Operator) : Bool :=
  match op.family with
  | .unsupported | .aggregate => false
  | _ => true

section

variable {c : Call} {ns : List Node} {text : String}

lemma any_parts_call (p : Node → Bool) (hc : c.operator ≠ .scalarQuery) (ns : List Node) :
    (Node.call c ns).parts.any p = (p (.call c ns) || ns.any (·.parts.any p)) := by
  rw [Node.parts, if_neg hc, Node.partsEach_eq_flatMap, List.any_cons, List.any_flatMap]

lemma any_parts_list (p : Node → Bool) (ns : List Node) :
    (Node.list ns).parts.any p = (p (.list ns) || ns.any (·.parts.any p)) := by
  rw [Node.parts, Node.partsEach_eq_flatMap, List.any_cons, List.any_flatMap]

lemma containsAggregate_call (hc : c.operator ≠ .scalarQuery) (ns : List Node) :
    (Node.call c ns).containsAggregate =
      (c.operator.isAggregate || ns.any Node.containsAggregate) :=
  any_parts_call Node.isAggregate hc ns

/-- Whether the text of a node shows that it has an aggregate. -/
def Node.IsShown (n : Node) : Prop := ∀ t, n.sql? = some t → Shows n.containsAggregate t

lemma Node.Texts.shows {ts : List String} (h : Node.Texts ns ts)
    (hns : ∀ n ∈ ns, n.IsShown) :
    List.Forall₂ (fun n t => Shows (Node.containsAggregate n) t) ns ts := by
  induction h with
  | nil => exact .nil
  | cons ht _ ih =>
    exact .cons (hns _ (by simp) _ ht) (ih fun n hn => hns n (by simp [hn]))

lemma form_of_isAggregate (h : c.operator.isAggregate = true) : c.operator.form = .function := by
  cases hop : c.operator <;> simp_all [Operator.isAggregate, Operator.form]

lemma after_aggregate (h : c.operator.isAggregate = true) {z : Scan} (hz : z.IsOpen) :
    (z.after c.operator.name).after "(" = .alarm := by
  rcases hz with rfl | rfl
  · simp
  · cases hop : c.operator with
    | aggregate a => cases a <;> decide
    | _ => simp [hop, Operator.isAggregate] at h

/-- The text of a call shows what those of its operands show. -/
lemma isShown_call (hc : c.operator ≠ .scalarQuery) (hcast : c.operator = .cast → ns.length = 2)
    (hname : '\'' ∉ c.operator.name.toList) (hns : ∀ n ∈ ns, n.IsShown) :
    (Node.call c ns).IsShown := by
  intro text h
  rw [containsAggregate_call hc]
  have hbracket := opens_of_concat (t := "(") [] (by decide) rfl (by decide)
  have hblank : Opens " " := opens_of_concat [] (by decide) rfl (by decide)
  have hplain (hform : c.operator.form ≠ .function) : c.operator.isAggregate = false := by
    rw [← Bool.not_eq_true]
    exact fun h => hform (form_of_isAggregate h)
  cases Node.callText_of_sql? h with
  | @cast x y rest a b hop hx hy =>
    obtain rfl : rest = [] := by simpa using hcast hop
    have has : Opens " AS " := opens_of_concat [' ', 'A', 'S'] (by decide) rfl (by decide)
    have hsides := ((hns x (by simp) a hx).bracket x).append has (hns y (by simp) b hy)
    have := (hsides.prepend (s := "CAST(")
      (opens_of_concat ['C', 'A', 'S', 'T'] (by decide) rfl (by decide))).concat
      (t := ")") (by decide)
    simpa [hop, Operator.isAggregate, String.append_assoc] using this
  | query hop => exact absurd hop hc
  | @function ns ts hop hts =>
    cases hagg : c.operator.isAggregate with
    | true =>
      exact fun z hz => by simp [after_aggregate hagg hz]
    | false =>
      have hopens : Opens (c.operator.name ++ "(" ++ if c.distinct then "DISTINCT " else "") := by
        split
        · exact .prepend (by simpa using hname)
            (opens_of_concat ("DISTINCT".toList) (by decide) rfl (by decide))
        · simpa using Opens.prepend hname hbracket
      simpa [String.append_assoc] using
        ((shows_commas (hts.shows hns)).prepend hopens).concat (t := ")") (by decide)
  | @before x a hop hx =>
    have hopens : Opens (c.operator.name ++ if Node.isWord c.operator then " " else "") := by
      cases hop' : c.operator <;> simp_all [Operator.form]
      · exact opens_of_concat ['N', 'O', 'T'] (by decide) rfl (by decide)
      · exact opens_of_concat [] (by decide) rfl (by decide)
    simpa [hplain (by simp [hop])] using ((hns x (by simp) a hx).bracket x).prepend hopens
  | @after x a hop hx =>
    simpa [hplain (by simp [hop]), String.append_assoc] using
      ((hns x (by simp) a hx).bracket x).concat (t := " " ++ c.operator.name) (by simpa using hname)
  | @between x y a b hop hx hy =>
    have hinfix : Opens (" " ++ c.operator.name ++ " ") := .prepend (by simpa using hname) hblank
    have := ((hns x (by simp) a hx).bracket x).append hinfix ((hns y (by simp) b hy).bracket y)
    simpa [hplain hop, String.append_assoc] using this
  | @other ns ts hop hts =>
    have := ((shows_commas (hts.shows hns)).prepend (.prepend hname hbracket)).concat
      (t := ")") (by decide)
    simpa [hplain hop] using this

/-- The names of such operators are neither aggregates nor queries. -/
lemma after_name (h : c.operator.isRowwise = true) :
    (Scan.plain []).after (c.operator.name ++ " ") = .plain [] ∧
      (Scan.plain []).after (c.operator.name ++ "(") = .plain [] := by
  cases hop : c.operator with
  | comparison p => cases p <;> decide
  | arithmetic a => cases a <;> decide
  | aggregate | rename | scalarQuery | like | within | function =>
    simp [hop, Operator.isRowwise, Operator.family] at h
  | _ => decide

lemma concat_ne_query {word : List Char} {c : Char} (hc : c ≠ 'T') : word ++ [c] ≠ Scan.query := by
  intro h
  have := congrArg List.getLast? h
  simp [Scan.query, hc] at this

lemma Quiet.concat {t : String} (ht : Quiet t) : Quiet (t ++ ")") := by
  obtain ⟨word, -, ht⟩ := ht
  refine ⟨word ++ [')'], concat_ne_query (by decide), ?_⟩
  rw [Scan.after_append, ht]
  rfl

lemma Quiet.bracket {t : String} (n : Node) (ht : Quiet t) : Quiet (n.bracket t) := by
  unfold Node.bracket
  split
  · exact (ht.prepend (by decide)).concat
  · exact ht

lemma quiet_commas {ts : List String} (h : ∀ t ∈ ts, Quiet t) : Quiet (Node.commas ts) := by
  induction ts with
  | nil => exact ⟨[], by decide, rfl⟩
  | cons t ts ih =>
    obtain ⟨⟨word, -, ht⟩, hts⟩ := List.forall_mem_cons.1 h
    cases ts with
    | nil => simpa [Node.commas] using h
    | cons =>
      obtain ⟨word', hword', hrest⟩ := ih hts
      refine ⟨word', hword', ?_⟩
      have hcomma : (Scan.plain word).after ", " = .plain [] := by
        simp [Scan.after, Scan.step, concat_ne_query]
      rw [Node.commas, String.intercalate_cons_cons, Scan.after_append, Scan.after_append, ht, hcomma]
      exact hrest

lemma Node.Texts.quiet {ts : List String} (h : Node.Texts ns ts)
    (hns : ∀ n ∈ ns, ∀ t, n.sql? = some t → Quiet t) : ∀ t ∈ ts, Quiet t := by
  intro t ht
  obtain ⟨n, hn, h⟩ := exists_left_of_forall₂ h t ht
  exact hns n hn t h

/-- The text of a call is quiet if those of its operands are. -/
lemma quiet_call (hc : c.operator.isRowwise = true)
    (hns : ∀ n ∈ ns, ∀ t, n.sql? = some t → Quiet t) (h : (Node.call c ns).sql? = some text) :
    Quiet text := by
  obtain ⟨hblank, hbracket⟩ := after_name hc
  cases Node.callText_of_sql? h with
  | @cast x y rest a b hop hx hy =>
    have has : (Scan.plain []).after "AS " = .plain [] := by decide
    have hsides := ((hns x (by simp) a hx).bracket x).append has (hns y (by simp) b hy)
    simpa [String.append_assoc] using (hsides.prepend (s := "CAST(") (by decide)).concat
  | query hop => simp [hop, Operator.isRowwise, Operator.family] at hc
  | @function ns ts hop hts =>
    cases hop' : c.operator <;>
      simp_all [Operator.form, Operator.isRowwise, Operator.family]
  | @before x a hop hx =>
    refine ((hns x (by simp) a hx).bracket x).prepend ?_
    cases hop' : c.operator <;> simp_all [Operator.form] <;> decide
  | @after x a hop hx =>
    have hquiet (sep : String) (hsep : (Scan.plain []).after sep = .plain []) :
        Quiet (x.bracket a ++ (" " ++ sep) ++ "NULL") :=
      ((hns x (by simp) a hx).bracket x).append hsep ⟨['N', 'U', 'L', 'L'], by decide, rfl⟩
    cases hop' : c.operator <;> simp [hop', Operator.form] at hop
    · simpa [Operator.name, String.append_assoc] using hquiet "IS " (by decide)
    · simpa [Operator.name, String.append_assoc] using hquiet "IS NOT " (by decide)
  | @between x y a b hop hx hy =>
    have := ((hns x (by simp) a hx).bracket x).append hblank ((hns y (by simp) b hy).bracket y)
    simpa [String.append_assoc] using this
  | @other ns ts hop hts =>
    exact ((quiet_commas (hts.quiet hns)).prepend hbracket).concat

end

/-! ### Numbers -/

section

variable {P : Char → Prop} {digits : List Char} {point : Int}

lemma Layout.forall_mem_positional (l : Layout) (hzero : P '0') (hpoint : P '.')
    (hdigits : ∀ c ∈ digits, P c) : ∀ c ∈ l.positional digits point, P c := by
  have hzeros (k : Nat) : ∀ c ∈ List.replicate k '0', P c :=
    fun c hc => List.eq_of_mem_replicate hc ▸ hzero
  unfold positional
  split
  · simpa [hzero, hpoint, or_imp, forall_and, hzeros] using hdigits
  · split
    · simp only [List.forall_mem_append, List.forall_mem_cons]
      exact ⟨fun c hc => hdigits c (List.mem_of_mem_take hc), hpoint,
        fun c hc => hdigits c (List.mem_of_mem_drop hc)⟩
    · simp only [List.forall_mem_append]
      refine ⟨⟨hdigits, hzeros _⟩, ?_⟩
      split <;> simp [hzero, hpoint]

lemma forall_mem_digitsOf (h : ∀ c : Char, c.isDigit → P c) (n : Nat) :
    ∀ c ∈ Text.digitsOf n, P c :=
  fun c hc => h c (Text.charIsDigit_of_mem_digitsOf hc)

lemma Layout.forall_mem_power (l : Layout) (hmark : P l.mark) (hplus : P '+') (hminus : P '-')
    (hdigit : ∀ c : Char, c.isDigit → P c) (n : Int) : ∀ c ∈ l.power n, P c := by
  simp only [power, List.forall_mem_cons, List.forall_mem_append]
  refine ⟨hmark, by split <;> assumption, fun c hc => ?_, forall_mem_digitsOf hdigit _⟩
  exact List.eq_of_mem_replicate hc ▸ hdigit '0' rfl

lemma Layout.forall_mem_scientific (l : Layout) (hmark : P l.mark) (hplus : P '+')
    (hminus : P '-') (hpoint : P '.') (hdigit : ∀ c : Char, c.isDigit → P c)
    (hdigits : ∀ c ∈ digits, P c) : ∀ c ∈ l.scientific digits point, P c := by
  unfold scientific
  refine List.forall_mem_append.2 ⟨?_, l.forall_mem_power hmark hplus hminus hdigit _⟩
  split
  · simp
  · exact hdigits
  · simpa [hpoint] using hdigits

/-- In either form a number with a point begins with a digit. -/
lemma Layout.isDigit_head? (l : Layout) (hmark : l.mark ≠ '.') (hdigits : ∀ c ∈ digits, c.isDigit)
    (p : Prop) [Decidable p]
    (h : '.' ∈ if p then l.positional digits point else l.scientific digits point) :
    ∃ c ∈ (if p then l.positional digits point else l.scientific digits point).head?,
      c.isDigit := by
  split at h
  · next hp =>
    simp only [if_pos hp]
    unfold positional at h ⊢
    split
    · exact ⟨'0', rfl, rfl⟩
    · next hpositive =>
      obtain ⟨k, hk⟩ : ∃ k, point.toNat = k + 1 := ⟨point.toNat - 1, by omega⟩
      cases digits with
      | nil => exact ⟨'0', by simp [hk, List.replicate_succ], rfl⟩
      | cons d ds =>
        refine ⟨d, ?_, hdigits d (by simp)⟩
        split <;> simp [hk]
  · next hp =>
    simp only [if_neg hp]
    unfold scientific at h ⊢
    obtain _ | ⟨d, ds⟩ := digits
    · have hpower : ∀ c ∈ l.power (point - 1), c ≠ '.' :=
        l.forall_mem_power hmark (by decide) (by decide) (by rintro c hc rfl; cases hc) _
      exact absurd rfl (hpower '.' h)
    · refine ⟨d, ?_, hdigits d (by simp)⟩
      cases ds <;> simp

end

/-! ### Constants and columns -/

namespace Scan

lemma step_easy {word : List Char} {c : Char} (hc : c ∉ ['\'', '(', ' ']) :
    (plain word).step c = if c = '-' then .plain [] else .plain (word ++ [c]) := by
  simp only [List.mem_cons, List.not_mem_nil, or_false, not_or] at hc
  simp [step, hc]

/-- Names are read as one word. -/
lemma after_word {word : List Char} {t : String}
    (h : ∀ c ∈ t.toList, c ∉ ['\'', '(', ' ', '-']) :
    (plain word).after t = .plain (word ++ t.toList) := by
  rw [after]
  revert h
  generalize t.toList = cs
  intro h
  induction cs generalizing word with
  | nil => simp
  | cons c cs ih =>
    obtain ⟨hc, hcs⟩ := List.forall_mem_cons.1 h
    simp only [List.mem_cons, List.not_mem_nil, or_false, not_or] at hc
    rw [List.foldl_cons, step_easy (by simp [hc]), if_neg hc.2.2.2, ih hcs]
    simp

end Scan

/-- The characters of numbers and of the words for other constants are none of these. -/
def isHard (c : Char) : Bool := ['\'', '(', ' ', 'C'].contains c

/-- A text without such characters is quiet. -/
lemma quiet_of_easy {t : String} (h : ∀ c ∈ t.toList, isHard c = false) : Quiet t := by
  have hscan (cs word : List Char) (hword : 'C' ∉ word) (hcs : ∀ c ∈ cs, isHard c = false) :
      ∃ word', 'C' ∉ word' ∧ cs.foldl Scan.step (.plain word) = .plain word' := by
    induction cs generalizing word with
    | nil => exact ⟨word, hword, rfl⟩
    | cons c cs ih =>
      obtain ⟨hc, hcs⟩ := List.forall_mem_cons.1 hcs
      simp only [isHard, List.contains_eq_mem, decide_eq_false_iff_not, List.mem_cons,
        List.not_mem_nil, or_false, not_or] at hc
      rw [List.foldl_cons, Scan.step_easy (by simp [hc])]
      split
      · exact ih [] (by simp) hcs
      · exact ih (word ++ [c]) (by simp [hword, Ne.symm hc.2.2.2]) hcs
  obtain ⟨word, hword, ht⟩ := hscan t.toList [] (by simp) h
  exact ⟨word, fun heq => hword (by simp [heq, Scan.query]), ht⟩

/-- A doubled quote closes and opens again. -/
lemma quiet_singleQuoted (s : String) : Quiet (Text.singleQuoted s) := by
  have hquoted (cs : List Char) :
      (Text.double '\'' cs ++ ['\'']).foldl Scan.step .quoted = .plain [] := by
    induction cs with
    | nil => rfl
    | cons c cs ih =>
      by_cases hc : c = '\''
      · simpa [Text.double, hc, Scan.step] using ih
      · simpa [Text.double, hc, Scan.step] using ih
  refine ⟨[], by decide, ?_⟩
  rw [Scan.after, Text.singleQuoted, String.toList_ofList]
  exact hquoted s.toList

lemma isHard_of_isDigit {c : Char} (hc : c.isDigit) : isHard c = false := by
  rw [← Bool.not_eq_true]
  intro h
  simp only [isHard, List.contains_eq_mem, decide_eq_true_eq, List.mem_cons, List.not_mem_nil,
    or_false] at h
  rcases h with rfl | rfl | rfl | rfl <;> simp [Char.isDigit] at hc

lemma quiet_ofInt (n : Int) : Quiet (Text.ofInt n) := by
  refine quiet_of_easy ?_
  rw [Text.ofInt, String.toList_ofList]
  refine List.forall_mem_append.2 ⟨?_, forall_mem_digitsOf (fun c => isHard_of_isDigit) _⟩
  split <;> simp [isHard]

lemma isHard_digitsOf (n : Nat) : ∀ c ∈ Text.digitsOf n, isHard c = false :=
  forall_mem_digitsOf (fun _ => isHard_of_isDigit) n

lemma isHard_sign (negative : Bool) : ∀ c ∈ Decimal.sign negative, isHard c = false := by
  cases negative <;> simp [Decimal.sign, isHard]

/-- In either form a number has none of these characters. -/
lemma Layout.isHard (l : Layout) (hmark : GraphSelect.isHard l.mark = false) {digits : List Char}
    (hdigits : ∀ c ∈ digits, GraphSelect.isHard c = false) (point : Int) (p : Prop) [Decidable p] :
    ∀ c ∈ if p then l.positional digits point else l.scientific digits point,
      GraphSelect.isHard c = false := by
  split
  · exact l.forall_mem_positional rfl rfl hdigits
  · exact l.forall_mem_scientific hmark rfl rfl rfl (fun _ => isHard_of_isDigit) hdigits

lemma Decimal.quiet_text (d : Decimal) : Quiet d.text := by
  refine quiet_of_easy ?_
  rw [Decimal.text, String.toList_ofList]
  cases d with
  | finite negative n e =>
    exact List.forall_mem_append.2
      ⟨isHard_sign negative, layout.isHard rfl (isHard_digitsOf n) _ _⟩
  | infinite negative =>
    exact List.forall_mem_append.2 ⟨isHard_sign negative, by decide⟩
  | nan negative signaling payload =>
    simp only [chars, List.forall_mem_append]
    refine ⟨⟨⟨isHard_sign negative, ?_⟩, by decide⟩, ?_⟩
    · cases signaling <;> simp [isHard]
    · split
      · simp
      · exact isHard_digitsOf payload

lemma Double.mem_of_mem_trimZeros {c : Char} {cs : List Char} (h : c ∈ trimZeros cs) : c ∈ cs :=
  List.mem_reverse.1 ((List.dropWhile_sublist _).mem (List.mem_reverse.1 h))

lemma Double.quiet_text (x : Double) : Quiet x.text := by
  refine quiet_of_easy ?_
  rw [Double.text, String.toList_ofList]
  have htrimmed (n : Nat) : ∀ c ∈ trimZeros (Text.digitsOf n), isHard c = false :=
    fun c hc => isHard_digitsOf n c (mem_of_mem_trimZeros hc)
  unfold chars
  split
  · exact List.forall_mem_append.2 ⟨isHard_sign _, by decide⟩
  · exact List.forall_mem_append.2 ⟨isHard_sign _, layout.isHard rfl (htrimmed _) _ _⟩
  · exact List.forall_mem_append.2 ⟨isHard_sign _, by decide⟩
  · decide

/-- The value of a literal is a constant, and is no text but that of a character literal. -/
lemma Literal.IsSpelled.scalar {l : Literal} (h : l.IsSpelled) :
    ∃ x, l.value = .scalar x ∧ ∀ t, x ≠ .text t := by
  induction h with
  | exact s =>
    unfold ofExact
    split
    · exact ⟨_, rfl, nofun⟩
    · exact ⟨_, rfl, nofun⟩
  | negate _ _ ih =>
    obtain ⟨x, hx, hne⟩ := ih
    refine ⟨x.negate, by rw [Literal.negate, hx]; rfl, ?_⟩
    cases x <;> simp_all [Scalar.negate]
  | _ => exact ⟨_, rfl, nofun⟩

lemma Literal.IsSpelled.quiet {l : Literal} (h : l.IsSpelled) : Quiet l.value.sql := by
  obtain ⟨x, hx, hne⟩ := h.scalar
  rw [hx]
  cases x with
  | null => exact quiet_of_easy (by decide)
  | bool b => cases b <;> exact quiet_of_easy (by decide)
  | int n => exact quiet_ofInt n
  | decimal d => exact d.quiet_text
  | double x => exact x.quiet_text
  | text t => exact absurd rfl (hne t)
  | chars s => exact quiet_singleQuoted s

lemma point_notMem_digitsOf (n : Nat) : '.' ∉ Text.digitsOf n := fun h =>
  absurd (Text.charIsDigit_of_mem_digitsOf h) (by decide)

lemma point_notMem_ofInt (n : Int) : '.' ∉ (Text.ofInt n).toList := by
  rw [Text.ofInt, String.toList_ofList, List.mem_append]
  rintro (h | h)
  · split at h <;> simp at h
  · exact point_notMem_digitsOf _ h

/-- A number with a point begins with its sign or with a digit. -/
lemma head?_sign {negative : Bool} {cs : List Char} (h : '.' ∈ cs → ∃ c ∈ cs.head?, c.isDigit)
    (hpoint : '.' ∈ Decimal.sign negative ++ cs) :
    ∃ c ∈ (Decimal.sign negative ++ cs).head?, c.isDigit ∨ c = '-' := by
  cases negative with
  | true => exact ⟨'-', rfl, .inr rfl⟩
  | false =>
    obtain ⟨c, hc, hdigit⟩ := h hpoint
    exact ⟨c, hc, .inl hdigit⟩

lemma Decimal.head?_text (d : Decimal) (h : '.' ∈ d.text.toList) :
    ∃ c ∈ d.text.toList.head?, c.isDigit ∨ c = '-' := by
  rw [Decimal.text, String.toList_ofList] at h ⊢
  cases d with
  | finite negative n e =>
    exact head?_sign (layout.isDigit_head? (by decide)
      (fun c => Text.charIsDigit_of_mem_digitsOf) _) h
  | infinite negative => exact head?_sign (absurd · (by decide)) h
  | nan negative signaling payload =>
    simp only [chars, List.append_assoc] at h ⊢
    refine head?_sign (fun h => ?_) h
    simp only [List.mem_append] at h
    rcases h with h | h | h
    · cases signaling <;> simp at h
    · exact absurd h (by decide)
    · split at h
      · simp at h
      · exact absurd h (point_notMem_digitsOf payload)

lemma Double.head?_text (x : Double) (h : '.' ∈ x.text.toList) :
    ∃ c ∈ x.text.toList.head?, c.isDigit ∨ c = '-' := by
  rw [Double.text, String.toList_ofList] at h ⊢
  unfold chars at h ⊢
  split at h
  · exact head?_sign (fun _ => ⟨'0', rfl, rfl⟩) h
  · exact head?_sign (layout.isDigit_head? (by decide) (fun c hc =>
      Text.charIsDigit_of_mem_digitsOf (mem_of_mem_trimZeros hc)) _) h
  · exact head?_sign (absurd · (by decide)) h
  · exact absurd h (by decide)

/-- A constant with a point in its text begins with a digit, a minus or a quote. -/
lemma Literal.IsSpelled.head? {l : Literal} (h : l.IsSpelled) (hpoint : '.' ∈ l.value.sql.toList) :
    ∃ c ∈ l.value.sql.toList.head?, (c.isDigit ∨ c = '-') ∨ c = '\'' := by
  have hnumber {t : String} (ht : ∃ c ∈ t.toList.head?, c.isDigit ∨ c = '-') :
      ∃ c ∈ t.toList.head?, (c.isDigit ∨ c = '-') ∨ c = '\'' :=
    ht.imp fun _ => And.imp_right .inl
  obtain ⟨x, hx, hne⟩ := h.scalar
  rw [hx] at hpoint ⊢
  cases x with
  | null => exact absurd hpoint (by decide)
  | bool b => cases b <;> exact absurd hpoint (by decide)
  | int n => exact absurd hpoint (point_notMem_ofInt n)
  | decimal d => exact hnumber (d.head?_text hpoint)
  | double x => exact hnumber (x.head?_text hpoint)
  | text t => exact absurd rfl (hne t)
  | chars s => exact ⟨'\'', by simp [Value.sql, Scalar.sql, Scalar.plain, Text.singleQuoted], .inr rfl⟩

lemma TypeSpec.quiet_text (t : TypeSpec) : Quiet t.text := by
  have hname : (Scan.plain []).after (t.type.name ++ "(") = .plain [] := by
    cases t.type <;> decide
  unfold text
  split
  · cases t.type <;> exact ⟨_, by decide, rfl⟩
  · exact ((quiet_ofInt _).prepend hname).concat
  · next p s _ _ =>
    have hcommas : Quiet (Node.commas [Text.ofInt p, Text.ofInt s]) :=
      quiet_commas (by simp [quiet_ofInt])
    simpa [Node.commas, String.append_assoc] using (hcommas.prepend hname).concat

lemma easy_of_isPlainName {name : String} (h : isPlainName name) :
    ∀ c ∈ name.toList, c ∉ ['\'', '(', ' ', '-'] := by
  intro c hc hmem
  simp only [List.mem_cons, List.not_mem_nil, or_false] at hmem
  rcases hmem with rfl | rfl | rfl | rfl <;> exact notMem_of_isPlainName h (by decide) hc

lemma isDigit_of_isAlpha {c : Char} (h : c.isAlpha) : ¬ c.isDigit := by
  intro hdigit
  have hletter : decide ('A'.val ≤ c.val ∧ c.val ≤ 'Z'.val) ||
    decide ('a'.val ≤ c.val) && decide (c.val ≤ 'z'.val) := h
  have hnumber : decide ('0'.val ≤ c.val) && decide (c.val ≤ '9'.val) := hdigit
  simp only [Bool.or_eq_true, Bool.and_eq_true, decide_eq_true_eq] at hletter hnumber
  grind

lemma head?_of_isPlainName {name : String} (h : isPlainName name) :
    ∃ c ∈ name.toList.head?, ¬ ((c.isDigit ∨ c = '-') ∨ c = '\'') := by
  unfold isPlainName at h
  split at h
  · simp at h
  · next c cs hname =>
    simp only [Bool.and_eq_true, Bool.or_eq_true, decide_eq_true_eq] at h
    refine ⟨c, by simp [hname], ?_⟩
    rcases h.1 with hletter | rfl
    · rintro ((hdigit | rfl) | rfl)
      · exact isDigit_of_isAlpha hletter hdigit
      · exact absurd hletter (by decide)
      · exact absurd hletter (by decide)
    · decide

/-- The name of a column is not the text of a constant. -/
lemma Literal.IsSpelled.ne_groupKey {l : Literal} (h : l.IsSpelled) {label property : String}
    (hl : isPlainName label) : l.value.sql ≠ Scope.groupKey label property := by
  intro heq
  obtain ⟨c, hc, hnot⟩ := head?_of_isPlainName hl
  have hhead : c ∈ l.value.sql.toList.head? := by
    rw [heq, Scope.groupKey, String.toList_append, String.toList_append, List.append_assoc,
      List.head?_append, Option.mem_def.1 hc]
    rfl
  obtain ⟨c', hc', hnumber⟩ := h.head? (by simp [heq, Scope.groupKey])
  obtain rfl : c = c' := Option.mem_unique hhead hc'
  exact hnot hnumber

/-- Plain names with a point between them are one word. -/
lemma Scope.quiet_groupKey {label property : String} (hl : isPlainName label)
    (hp : isPlainName property) : Quiet (groupKey label property) := by
  refine ⟨_, ?_, Scan.after_word ?_⟩
  · intro h
    have hmem : '.' ∈ (groupKey label property).toList := by simp [groupKey]
    rw [List.nil_append] at h
    exact absurd (h ▸ hmem) (by decide)
  · simp only [groupKey, String.toList_append, List.forall_mem_append]
    exact ⟨⟨easy_of_isPlainName hl, by decide⟩, easy_of_isPlainName hp⟩

/-- Whether all names of a column are plain, but for a star in the end. -/
def Identifier.isPlain (i : Identifier) : Bool :=
  (if i.isStar then i.names.dropLast else i.names).all isPlainName

lemma mem_intercalate {sep : String} {ts : List String} {c : Char}
    (h : c ∈ (sep.intercalate ts).toList) : c ∈ sep.toList ∨ ∃ t ∈ ts, c ∈ t.toList := by
  induction ts with
  | nil => simp at h
  | cons t ts ih =>
    cases ts with
    | nil => exact .inr ⟨t, by simp, by simpa using h⟩
    | cons =>
      rw [String.intercalate_cons_cons, String.toList_append, String.toList_append,
        List.mem_append, List.mem_append] at h
      rcases h with (h | h) | h
      · exact .inr ⟨t, by simp, h⟩
      · exact .inl h
      · exact (ih h).imp_right fun ⟨t, ht, hc⟩ => ⟨t, by simp [ht], hc⟩

lemma Identifier.isPlain_cases {i : Identifier} (h : i.isPlain) {name : String}
    (hname : name ∈ i.names) : isPlainName name ∨ name = "*" := by
  unfold isPlain at h
  split at h
  · next hstar =>
    rcases List.eq_nil_or_concat i.names with hnil | ⟨init, last, hnames⟩
    · simp [hnil] at hname
    · rw [List.concat_eq_append] at hnames
      simp only [isStar, simple, hnames, List.getLastD_concat, decide_eq_true_eq] at hstar
      simp only [hnames, List.dropLast_concat, List.all_eq_true] at h
      rw [hnames, List.mem_append, List.mem_singleton] at hname
      exact hname.imp (h name) (·.trans hstar)
  · exact .inl (List.all_eq_true.1 h name hname)

lemma Identifier.quote_notMem_text {i : Identifier} (h : i.isPlain) : '\'' ∉ i.text.toList := by
  intro hmem
  rcases mem_intercalate hmem with hmem | ⟨name, hname, hmem⟩
  · exact absurd hmem (by decide)
  · rcases isPlain_cases h hname with hname | rfl
    · exact notMem_of_isPlainName hname (by decide) hmem
    · exact absurd hmem (by decide)

/-! ### Expressions -/

/-- Whether the name of some function in an expression has a quote. -/
def Node.hasQuotedName (n : Node) : Bool :=
  n.parts.any fun
    | .call c _ => c.operator.name.toList.contains '\''
    | _ => false

lemma Node.isShown_list {ns : List Node} (hns : ∀ n ∈ ns, n.IsShown) : (Node.list ns).IsShown := by
  intro text h
  rw [sql?, sqlEach_eq_map] at h
  obtain ⟨ts, hts, rfl⟩ := Option.map_eq_some_iff.1 h
  have hparts : (Node.list ns).containsAggregate = ns.any containsAggregate :=
    any_parts_list isAggregate ns
  rw [hparts]
  exact ((shows_commas ((texts_of_mapM hts).shows hns)).prepend
    (opens_of_concat [] (by decide) rfl (by decide))).concat (by decide)

lemma Node.exists_of_selectText? {q : Select} {text : String}
    (h : (Node.select q).sql? = some text) : ∃ rest, text = "SELECT " ++ rest := by
  simp only [sql?, selectText?, Option.bind_eq_bind, Option.bind_eq_some_iff, Option.pure_def,
    Option.some.injEq] at h
  obtain ⟨items, -, source, -, filter, -, groupBy, -, having, -, orderBy, -, limit, -, offset, -,
    rfl⟩ := h
  have hfirst (t : String) (ts : List String) :
      ∃ rest, " ".intercalate ("SELECT" :: t :: ts) = "SELECT " ++ rest := by
    have hblank : "SELECT" ++ " " = "SELECT " := by decide
    exact ⟨" ".intercalate (t :: ts), by rw [String.intercalate_cons_cons, hblank]⟩
  split <;> exact hfirst _ _

/-- A query in an expression is seen, and what it holds is not read. -/
lemma Node.isShown_query {c : Call} (hc : c.operator = .scalarQuery) (q : Select) :
    (Node.call c [.select q]).IsShown := by
  intro text h
  have hagg : (Node.call c [.select q]).containsAggregate = false := by
    simp [containsAggregate, parts, hc, isAggregate, Operator.isAggregate]
  rw [hagg]
  rw [sql?_call] at h
  simp only [callText?, hc, List.map_cons, List.map_nil, Option.bind_eq_bind,
    Option.bind_eq_some_iff, Option.pure_def, Option.some.injEq] at h
  obtain ⟨a, ha, rfl⟩ := h
  obtain ⟨rest, rfl⟩ := exists_of_selectText? ha
  rintro z (rfl | rfl)
  · simp
  · have halarm : ((Scan.plain []).after "(").after "SELECT " = .alarm := by decide
    simp [halarm]

theorem isShown_of_isWritten {n : Node} {k : Category} (h : n.IsWritten k) (hk : k = .expression)
    (hcols : ∀ i ∈ n.references, i.isPlain) (hnames : n.hasQuotedName = false) : n.IsShown := by
  -- The columns and functions of a call are its own and those of its operands.
  have hcall {c : Call} {ns : List Node} (hquery : c.operator ≠ .scalarQuery)
      (hname : c.operator ≠ .rename) (hcast : c.operator = .cast → ns.length = 2)
      (hcols : ∀ i ∈ (Node.call c ns).references, i.isPlain)
      (hnames : (Node.call c ns).hasQuotedName = false)
      (hns : ∀ n ∈ ns, (∀ i ∈ n.references, i.isPlain) → n.hasQuotedName = false → n.IsShown) :
      (Node.call c ns).IsShown := by
    rw [Node.references_call hquery hname] at hcols
    rw [Node.hasQuotedName, any_parts_call _ hquery, Bool.or_eq_false_iff, List.any_eq_false]
      at hnames
    refine isShown_call hquery hcast (by simpa using hnames.1) fun n hn => hns n hn ?_ ?_
    · exact fun i hi => hcols i (List.mem_flatMap.2 ⟨n, hn, hi⟩)
    · exact Bool.eq_false_iff.2 (hnames.2 n hn)
  induction h with
  | column h =>
    intro t ht
    cases ht
    exact shows_of_notMem (Identifier.quote_notMem_text (hcols _ (by simp [Node.references])))
  | literal h =>
    intro t ht
    cases ht
    exact h.quiet.shows
  | infixed hc hx hy ihx ihy =>
    obtain ⟨hquery, hname, hcast⟩ := Operator.ne_of_affix (.inl hc)
    exact hcall hquery hname (absurd · hcast) hcols hnames (by simpa using ⟨ihx rfl, ihy rfl⟩)
  | prefixed hc hx ih =>
    obtain ⟨hquery, hname, hcast⟩ := Operator.ne_of_affix (.inr (.inl hc))
    exact hcall hquery hname (absurd · hcast) hcols hnames (by simpa using ih rfl)
  | test hc hx ih =>
    obtain ⟨hquery, hname, hcast⟩ := Operator.ne_of_affix (.inr (.inr hc))
    exact hcall hquery hname (absurd · hcast) hcols hnames (by simpa using ih rfl)
  | @function c xs name hc hxs ih =>
    obtain ⟨hquery, hname, hcast⟩ := hc ▸ Operator.ofFunctionName_ne name
    exact hcall hquery hname (absurd · hcast) hcols hnames fun x hx => ih x hx rfl
  | @cast c x hc hx t ih =>
    refine hcall (by simp [hc]) (by simp [hc]) (fun _ => rfl) hcols hnames ?_
    have htype : (Node.typeSpec t).IsShown := by
      intro text h
      cases h
      exact t.quiet_text.shows
    simpa using ⟨ih rfl, fun _ _ => htype⟩
  | @within c x xs hc hx hxs ihx ih =>
    refine hcall (by simp [hc]) (by simp [hc]) (by simp [hc]) hcols hnames ?_
    have hlist (hcols : ∀ i ∈ (Node.list xs).references, i.isPlain)
        (hnames : (Node.list xs).hasQuotedName = false) : (Node.list xs).IsShown := by
      rw [Node.references, Node.referencesEach_eq_flatMap] at hcols
      rw [Node.hasQuotedName, any_parts_list, Bool.or_eq_false_iff, List.any_eq_false] at hnames
      exact Node.isShown_list fun x hx => ih x hx rfl
        (fun i hi => hcols i (List.mem_flatMap.2 ⟨x, hx, hi⟩)) (Bool.eq_false_iff.2 (hnames.2 x hx))
    simpa using ⟨ihx rfl, hlist⟩
  | scalarQuery hc hq => exact Node.isShown_query hc _
  | _ => cases hk

end GraphSelect
