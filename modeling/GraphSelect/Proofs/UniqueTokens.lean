import GraphSelect.Proofs.Rereading
import GraphSelect.Proofs.Untyped

/-!
Expressions are told apart by their tokens.

From the tokens of a printed expression without sub-queries the expression can be told, loose
negations included: an operator that stands between or behind operands has brackets around it when
it is an operand, so the operators before an operand belong to this operand alone. The reader here
follows the printer and not the grammar of queries, and is meant for printed tokens only.
-/

namespace GraphSelect

/-- The function that is printed under a name. -/
def Operator.named (name : String) : Operator :=
  match Aggregate.all.find? (·.name = name) with
  | some a => .aggregate a
  | none => .function name

open GraphSelect.Parser (star column functionCall applyPrefix infixed? literal?)

namespace Node

/-- Whether there are no sub-queries in an expression, its names are words and its constants plain.
-/
def IsBasic (n : Node) : Prop := ∀ m : Node, m.StandsIn n → m.isQuery = false ∧ m.HasPlainWords

variable {m n : Node}

lemma IsBasic.self (h : n.IsBasic) : n.isQuery = false ∧ n.HasPlainWords := h n .self

lemma IsBasic.child (h : n.IsBasic) (hm : m ∈ n.children) : m.IsBasic :=
  fun k hk => h k (.child hm hk)

lemma IsBasic.operand {c : Call} {ns : List Node} (h : (Node.call c ns).IsBasic) (hm : m ∈ ns) :
    m.IsBasic := h.child hm

lemma isBracketed_of_affix {op : Operator} (h : op.isInfix = true ∨ op.isTest = true)
    (ns : List Node) : (Node.apply op ns).isBracketed = true := by
  cases op <;> simp_all [apply, isBracketed, Operator.isInfix, Operator.isTest, Operator.form]

end Node

namespace Printed

/-! ### Reading printed tokens -/

/-- What a row of tokens begins with, and the tokens behind it. -/
abbrev Reader (α : Type) := List Token → Option (α × List Token)

def startsWith (k : Terminal) (ts : List Token) : Bool := ts.head?.any (·.terminal = k)

def size (t : Token) : Int := Text.natOfDigits t.text

/-- The target of a cast. -/
def typeSpec : Reader TypeSpec
  | t :: ⟨.sign .opening, _⟩ :: p :: ⟨.sign .comma, _⟩ :: s :: _ :: ts =>
    (TypeName.ofName? (String.ofList t.text)).map (⟨·, some (size p), some (size s)⟩, ts)
  | t :: ⟨.sign .opening, _⟩ :: p :: _ :: ts =>
    (TypeName.ofName? (String.ofList t.text)).map (⟨·, some (size p), none⟩, ts)
  | t :: ts => (TypeName.ofName? (String.ofList t.text)).map (⟨·, none, none⟩, ts)
  | [] => none

/-- Entries with commas between them, `n` at most. -/
def entries (read : Reader Node) : Nat → Reader (List Node)
  | 0, _ => none
  | n + 1, ts => do
    let (x, ts) ← read ts
    if startsWith (.sign .comma) ts then
      let (xs, ts) ← entries read n ts.tail
      return (x :: xs, ts)
    else return ([x], ts)

/-- The entries before a closing bracket, if there are any. -/
def members (read : Reader Node) (n : Nat) : Reader (List Node) := fun ts => do
  if startsWith (.sign .closing) ts then return ([], ts.tail)
  let (xs, ts) ← entries read n ts
  return (xs, ts.tail)

/-- What a name begins: a column, or a function with its arguments. -/
def nameBegins (read : Reader Node) (n : Nat) (name : String) : Reader Node := fun ts =>
  if startsWith (.sign .dot) ts then
    some (column [name, String.ofList (ts.tail.headD default).text], ts.drop 2)
  else if startsWith (.sign .opening) ts then
    let distinct := startsWith (.keyword .distinct) ts.tail
    (members read n (if distinct then ts.tail.tail else ts.tail)).map fun (xs, ts) =>
      (.call ⟨.named name, distinct, none⟩ xs, ts)
  else some (column [name], ts)

mutual
/-- The operand that tokens begin with. -/
def operand : Nat → Reader Node
  | 0, _ => none
  | _ + 1, [] => none
  | n + 1, t :: ts =>
    match t.terminal with
    | .sign .opening => (expression n ts).map fun (x, ts) => (x, ts.tail)
    | .sign .minus => (operand n ts).map fun (x, ts) => (applyPrefix .negate x, ts)
    | .keyword .not => (operand n ts).map fun (x, ts) => (applyPrefix .not x, ts)
    | .keyword .cast => do
      let (x, ts) ← operand n ts.tail
      let (t, ts) ← typeSpec ts.tail
      return (.apply .cast [x, .typeSpec t], ts.tail)
    | .name | .sign .star => nameBegins (expression n) n (String.ofList t.text) ts
    | _ => (literal? t).map fun l => (.literal l, ts)

/-- The expression that tokens begin with: an operand, and what an operator behind it makes of
it. -/
def expression : Nat → Reader Node
  | 0, _ => none
  | n + 1, ts => do
    let (x, ts) ← operand n ts
    match ts with
    | [] => return (x, [])
    | t :: ts =>
      match t.terminal, infixed? t.terminal with
      | _, some op =>
        let (y, ts) ← operand n ts
        return (.apply op [x, y], ts)
      | .keyword .is, _ =>
        if startsWith (.keyword .null) ts then return (.apply .isNull [x], ts.tail)
        else return (.apply .isNotNull [x], ts.drop 2)
      | .keyword .in, _ =>
        let (ys, ts) ← members (expression n) n ts.tail
        return (.apply .within [x, .list ys], ts)
      | _, _ => return (x, t :: ts)
end

/-- The select item that tokens consist of. -/
def item (n : Nat) (ts : List Token) : Option Node := do
  let (x, ts) ← expression n ts
  match ts with
  | [] => return x
  | _ :: ts => return .named x (String.ofList (ts.headD default).text)

/-! ### What may follow -/

/-- Whether what stands behind an operand does not belong to it. -/
def Stops (ts : List Token) : Prop :=
  ∀ t ∈ ts.head?, t.terminal ≠ .sign .dot ∧ t.terminal ≠ .sign .opening

/-- Whether what stands behind an expression does not belong to it. -/
def Closes (ts : List Token) : Prop :=
  ∀ t ∈ ts.head?, t.terminal ∈ [.sign .closing, .sign .comma, .keyword .as]

variable {n : Nat} {t : Token} {ts us vs : List Token} {x y : Node}

lemma stops_cons (h : t.terminal ≠ .sign .dot ∧ t.terminal ≠ .sign .opening) : Stops (t :: ts) := by
  rintro _ ⟨⟩
  exact h

lemma closes_nil : Closes [] := by simp [Closes]

lemma closes_closing : Closes (.ofSign .closing :: ts) := by
  rintro _ ⟨⟩
  decide

lemma closes_comma : Closes (.ofSign .comma :: ts) := by
  rintro _ ⟨⟩
  decide

lemma closes_as : Closes (.ofKeyword .as :: ts) := by
  rintro _ ⟨⟩
  decide

lemma Closes.stops (h : Closes ts) : Stops ts := by
  intro t ht
  have hclosed := h t ht
  constructor <;> intro heq <;> simp [heq] at hclosed

/-! ### Operands and expressions -/

/-- Whether an expression is told from its tokens as an operand. -/
def ReadsOperand (x : Node) : Prop :=
  ∀ n ts, x.nested.length ≤ n → Stops ts → operand n (x.nested ++ ts) = some (x, ts)

/-- Whether an expression is told from its tokens. -/
def ReadsExpression (x : Node) : Prop :=
  ∀ n ts, x.tokens.length < n → Closes ts → expression n (x.tokens ++ ts) = some (x, ts)

lemma operand_opening : operand (n + 1) (.ofSign .opening :: ts) =
    (expression n ts).map fun (x, ts) => (x, ts.tail) := by
  rw [operand]
  rfl

lemma operand_minus : operand (n + 1) (.ofSign .minus :: ts) =
    (operand n ts).map fun (x, ts) => (applyPrefix .negate x, ts) := by
  rw [operand]
  rfl

lemma operand_not : operand (n + 1) (.ofKeyword .not :: ts) =
    (operand n ts).map fun (x, ts) => (.apply .not [x], ts) := by
  rw [operand]
  rfl

lemma operand_literal {l : Literal} (ht : literal? t = some l) :
    operand (n + 1) (t :: ts) = some (.literal l, ts) := by
  obtain ⟨terminal, text⟩ := t
  rw [operand]
  split <;> simp_all [literal?]

/-- Where an operand is complete, and nothing follows that belongs to it, so is an expression. -/
lemma expression_of_operand (h : operand n us = some (x, ts)) (hts : Closes ts) :
    expression (n + 1) us = some (x, ts) := by
  rw [expression, h]
  cases ts with
  | nil => rfl
  | cons t ts =>
    obtain ⟨terminal, text⟩ := t
    have ht := hts _ rfl
    simp only [List.mem_cons, List.not_mem_nil, or_false] at ht
    rcases ht with rfl | rfl | rfl <;> rfl

lemma expression_infixed {op : Operator} (h : operand n us = some (x, t :: ts))
    (ht : infixed? t.terminal = some op) (h' : operand n ts = some (y, vs)) :
    expression (n + 1) us = some (.apply op [x, y], vs) := by
  rw [expression, h]
  simp [ht, h']

lemma ReadsOperand.expression (h : ReadsOperand x) (hb : x.isBracketed = false) :
    ReadsExpression x := by
  intro n ts hn hts
  obtain ⟨n, rfl⟩ := Nat.exists_eq_add_one.2 (Nat.zero_lt_of_lt hn)
  rw [← Node.nested_of_not hb] at hn ⊢
  exact expression_of_operand (h n ts (by omega) hts.stops) hts

/-- Brackets are taken off again. -/
lemma ReadsExpression.operand (h : ReadsExpression x) (hb : x.isBracketed = true) :
    ReadsOperand x := by
  intro n ts hn _
  rw [Node.nested_of_isBracketed hb, inBrackets] at hn ⊢
  simp only [List.length_cons, List.length_append, List.length_nil] at hn
  obtain ⟨n, rfl⟩ := Nat.exists_eq_add_one.2 (Nat.zero_lt_of_lt hn)
  have hread := h n (.ofSign .closing :: ts) (by omega) closes_closing
  rw [List.cons_append, operand_opening, List.append_assoc, List.singleton_append, hread]
  rfl

/-! ### Lists -/

/-- No expression begins with a closing bracket or with `DISTINCT`. -/
lemma startsWith_of_expression {k : Terminal} (hk : k = .sign .closing ∨ k = .keyword .distinct)
    (h : (expression n ts).isSome = true) : startsWith k ts = false := by
  rw [← Bool.not_eq_true]
  intro hstarts
  obtain ⟨⟨terminal, text⟩, hhead, ht⟩ := (Option.any_eq_true ..).1 hstarts
  obtain ⟨ts, rfl⟩ := List.head?_eq_some_iff.1 hhead
  obtain rfl : terminal = k := by simpa using ht
  have hnone (n : Nat) : operand n (⟨terminal, text⟩ :: ts) = none := by
    cases n with
    | zero => rfl
    | succ n => rcases hk with rfl | rfl <;> rw [operand] <;> rfl
  cases n with
  | zero => cases h
  | succ n =>
    rw [expression, hnone] at h
    cases h

lemma entries_listed {xs : List Node} (hne : xs ≠ []) (hn : xs.length ≤ n) {read : Reader Node}
    (hxs : ∀ x ∈ xs, ∀ ts, Closes ts → read (x.tokens ++ ts) = some (x, ts)) (ts : List Token) :
    entries read n (listed (xs.map Node.tokens) ++ .ofSign .closing :: ts) =
      some (xs, .ofSign .closing :: ts) := by
  induction xs generalizing n with
  | nil => exact absurd rfl hne
  | cons x xs ih =>
    obtain ⟨n, rfl⟩ := Nat.exists_eq_add_one.2 (Nat.zero_lt_of_lt hn)
    cases xs with
    | nil =>
      have hread := hxs x List.mem_cons_self (.ofSign .closing :: ts) closes_closing
      rw [entries, List.map_singleton, listed, List.intercalate_singleton, hread]
      rfl
    | cons y xs =>
      have hread := hxs x List.mem_cons_self
        (.ofSign .comma :: (listed ((y :: xs).map Node.tokens) ++ .ofSign .closing :: ts))
        closes_comma
      have hrest := ih (List.cons_ne_nil _ _) (Nat.le_of_succ_le_succ hn)
        fun z hz => hxs z (List.mem_cons_of_mem _ hz)
      rw [entries, List.map_cons, List.map_cons, listed_cons_cons, List.append_assoc,
        List.cons_append, ← List.map_cons, hread]
      change ((entries read n _).bind fun (xs, ts) => some (x :: xs, ts)) = _
      rw [List.tail_cons, hrest]
      rfl

lemma length_le_listed {tss : List (List Token)} (h : ts ∈ tss) :
    ts.length ≤ (listed tss).length := by
  induction tss with
  | nil => cases h
  | cons us tss ih =>
    cases tss with
    | nil => simp_all [listed]
    | cons vs tss =>
      rw [listed_cons_cons, List.length_append, List.length_cons]
      rcases List.mem_cons.1 h with rfl | h
      · omega
      · have hrest := ih h
        omega

lemma length_le_length_listed (tss : List (List Token)) : tss.length ≤ (listed tss).length + 1 := by
  induction tss with
  | nil => exact Nat.zero_le _
  | cons us tss ih =>
    cases tss with
    | nil => simp
    | cons vs tss =>
      rw [listed_cons_cons]
      simp only [List.length_cons, List.length_append] at ih ⊢
      omega

lemma startsWith_members {k : Terminal} (hk : k = .sign .closing ∨ k = .keyword .distinct)
    {xs : List Node} (hne : xs ≠ []) (hxs : ∀ x ∈ xs, ReadsExpression x) (ts : List Token) :
    startsWith k (listed (xs.map Node.tokens) ++ .ofSign .closing :: ts) = false := by
  cases xs with
  | nil => exact absurd rfl hne
  | cons x xs =>
    have hx (us : List Token) (hus : Closes us) : startsWith k (x.tokens ++ us) = false :=
      startsWith_of_expression hk
        (by rw [hxs x List.mem_cons_self _ us (Nat.lt_succ_self _) hus]; rfl)
    cases xs with
    | nil =>
      rw [List.map_singleton, listed, List.intercalate_singleton]
      exact hx _ closes_closing
    | cons y xs =>
      rw [List.map_cons, List.map_cons, listed_cons_cons, List.append_assoc]
      exact hx _ closes_comma

lemma members_listed {xs : List Node} (hxs : ∀ x ∈ xs, ReadsExpression x)
    (hn : (listed (xs.map Node.tokens)).length + 1 < n) (ts : List Token) :
    members (expression n) n (listed (xs.map Node.tokens) ++ .ofSign .closing :: ts) =
      some (xs, ts) := by
  by_cases hne : xs = []
  · subst hne
    rfl
  · have hlength : xs.length ≤ n := by
      have hle := length_le_length_listed (xs.map Node.tokens)
      rw [List.length_map] at hle
      omega
    have hread : ∀ x ∈ xs, ∀ ts, Closes ts → expression n (x.tokens ++ ts) = some (x, ts) := by
      intro x hx ts hts
      have hle := length_le_listed (List.mem_map_of_mem hx (f := Node.tokens))
      exact hxs x hx n ts (by omega) hts
    rw [members, startsWith_members (.inl rfl) hne hxs, entries_listed hne hlength hread]
    rfl

/-! ### Each kind of expression -/

lemma readsExpression_infixed {op : Operator} (hop : op.isInfix = true) (hx : ReadsOperand x)
    (hy : ReadsOperand y) : ReadsExpression (.apply op [x, y]) := by
  intro n ts hn hts
  obtain ⟨n, rfl⟩ := Nat.exists_eq_add_one.2 (Nat.zero_lt_of_lt hn)
  obtain ⟨t, htokens, hinfix, -⟩ := Parser.exists_infixToken hop
  rw [Node.apply, Node.tokens_between (Operator.form_of_isInfix hop), htokens,
    List.singleton_append] at hn ⊢
  simp only [List.length_append, List.length_cons] at hn
  have hstops : Stops (t :: (y.nested ++ ts)) :=
    stops_cons (by constructor <;> intro h <;> simp [h, infixed?] at hinfix)
  rw [List.append_assoc, List.cons_append]
  exact expression_infixed (hx n _ (by omega) hstops) hinfix (hy n ts (by omega) hts.stops)

lemma stops_keyword {k : Keyword} : Stops (.ofKeyword k :: ts) :=
  stops_cons (by simp [Token.ofKeyword])

lemma readsExpression_test {op : Operator} (hop : op.isTest = true) (hx : ReadsOperand x) :
    ReadsExpression (.apply op [x]) := by
  intro n ts hn hts
  obtain ⟨n, rfl⟩ := Nat.exists_eq_add_one.2 (Nat.zero_lt_of_lt hn)
  rw [Node.apply, Node.tokens_after (Operator.form_of_isTest hop), List.append_assoc]
  rw [Node.apply, Node.tokens_after (Operator.form_of_isTest hop), List.length_append] at hn
  have hread (us : List Token) : operand n (x.nested ++ .ofKeyword .is :: us) =
      some (x, .ofKeyword .is :: us) := hx n _ (by omega) stops_keyword
  rw [expression]
  cases op with
  | isNull =>
    change (operand n (x.nested ++ .ofKeyword .is :: _)).bind _ = _
    rw [hread]
    rfl
  | isNotNull =>
    change (operand n (x.nested ++ .ofKeyword .is :: _)).bind _ = _
    rw [hread]
    rfl
  | _ => cases hop

lemma readsExpression_within (hx : ReadsOperand x) {xs : List Node}
    (hxs : ∀ y ∈ xs, ReadsExpression y) : ReadsExpression (.apply .within [x, .list xs]) := by
  intro n ts hn hts
  obtain ⟨n, rfl⟩ := Nat.exists_eq_add_one.2 (Nat.zero_lt_of_lt hn)
  rw [Node.apply, Node.tokens_within rfl, inBrackets] at hn ⊢
  simp only [List.length_append, List.length_cons] at hn
  have hread := hx n (.ofKeyword .in :: .ofSign .opening ::
    (listed (xs.map Node.tokens) ++ .ofSign .closing :: ts)) (by omega) stops_keyword
  have hmembers := members_listed hxs (n := n) (by omega) ts
  simp only [List.append_assoc, List.cons_append, List.nil_append]
  rw [expression, hread]
  change (members (expression n) n _).bind _ = _
  rw [List.tail_cons, hmembers]
  rfl

lemma readsOperand_prefixed {op : Operator} (hop : op.isPrefix = true)
    (hn : op = .negate → x.isNumber = false) (hx : ReadsOperand x) :
    ReadsOperand (.apply op [x]) := by
  intro n ts hlength hts
  have hb : (Node.apply op [x]).isBracketed = false := by
    simp [Node.apply, Node.isBracketed, Operator.form_of_isPrefix hop]
  rw [Node.nested_of_not hb, Node.apply, Node.tokens_before (Operator.form_of_isPrefix hop)]
    at hlength ⊢
  obtain ⟨t, htokens, hread⟩ : ∃ t, op.tokens = [t] ∧ ∀ m us, operand (m + 1) (t :: us) =
      (operand m us).map fun (x, us) => (applyPrefix op x, us) := by
    cases op with
    | not => exact ⟨_, rfl, fun _ _ => operand_not⟩
    | negate => exact ⟨_, rfl, fun _ _ => operand_minus⟩
    | _ => cases hop
  rw [htokens, List.singleton_append] at hlength ⊢
  obtain ⟨n, rfl⟩ := Nat.exists_eq_add_one.2 (Nat.zero_lt_of_lt hlength)
  rw [List.cons_append, hread, hx n ts (Nat.le_of_succ_le_succ hlength) hts]
  simp [Parser.applyPrefix_eq hn, Node.apply]

lemma readsOperand_literal {l : Literal} (htype : l.type = l.value.spelledType)
    (hplain : l.isPlain = true) : ReadsOperand (.literal l) := by
  intro n ts hlength _
  rw [Node.nested_of_not rfl, Node.tokens] at hlength ⊢
  rcases Parser.exists_literalToken htype hplain with ⟨k, hk, rfl⟩ | ⟨t, htokens, -, hl⟩
  · have htokens : (Value.int k).tokens = [.ofSign .minus, .ofNat k.natAbs] := if_pos hk
    rw [htokens] at hlength ⊢
    obtain ⟨n, rfl⟩ := Nat.exists_eq_add_of_le' hlength
    change operand (n + 1 + 1) _ = _
    rw [List.cons_append, operand_minus, List.singleton_append,
      operand_literal (Parser.literal?_ofNat _), Option.map_some]
    simp only [Parser.negate_ofNat hk]
  · rw [htokens] at hlength ⊢
    obtain ⟨n, rfl⟩ := Nat.exists_eq_add_one.2 (Nat.zero_lt_of_lt hlength)
    exact operand_literal hl

/-! ### Names -/

lemma operand_word (name : String) (ts : List Token) :
    operand (n + 1) (.word name :: ts) = nameBegins (expression n) n name ts := by
  rw [operand]
  simp [Token.word]

lemma operand_nameToken (name : String) (ts : List Token) :
    operand (n + 1) (nameToken name :: ts) = nameBegins (expression n) n name ts := by
  unfold nameToken
  split
  · next h =>
    rw [h, operand]
    rfl
  · exact operand_word name ts

lemma ofList_nameToken (name : String) : String.ofList (nameToken name).text = name := by
  unfold nameToken
  split
  · next h =>
    rw [h]
    rfl
  · exact String.ofList_toList

lemma Stops.startsWith (h : Stops ts) :
    startsWith (.sign .dot) ts = false ∧ startsWith (.sign .opening) ts = false := by
  cases ts with
  | nil => exact ⟨rfl, rfl⟩
  | cons t ts =>
    obtain ⟨hdot, hopening⟩ := h t rfl
    exact ⟨decide_eq_false hdot, decide_eq_false hopening⟩

lemma readsOperand_column {names : List String} (h : names.length = 1 ∨ names.length = 2) :
    ReadsOperand (column names) := by
  intro n ts hlength hts
  rw [Node.nested_of_not rfl, column, Node.tokens, Identifier.tokens] at hlength ⊢
  rcases h with h | h
  · obtain ⟨a, rfl⟩ := List.length_eq_one_iff.1 h
    obtain ⟨n, rfl⟩ := Nat.exists_eq_add_one.2 (Nat.zero_lt_of_lt hlength)
    change operand (n + 1) (nameToken a :: ts) = _
    rw [operand_nameToken, nameBegins, hts.startsWith.1, hts.startsWith.2]
    rfl
  · obtain ⟨a, b, rfl⟩ := List.length_eq_two.1 h
    obtain ⟨n, rfl⟩ := Nat.exists_eq_add_one.2 (Nat.zero_lt_of_lt hlength)
    change operand (n + 1) (nameToken a :: .ofSign .dot :: nameToken b :: ts) = _
    rw [operand_nameToken]
    change some (column [a, String.ofList (nameToken b).text], ts) = _
    rw [ofList_nameToken]
    rfl

lemma function_named (name : String) : (Operator.named name).form = .function ∧
    (Operator.named name).tokens = [.word name] := by
  unfold Operator.named
  split
  · next a h =>
    have hname : a.name = name := by simpa using List.find?_some h
    exact ⟨rfl, by rw [← hname]; rfl⟩
  · exact ⟨rfl, rfl⟩

lemma nameBegins_opening (read : Reader Node) (name : String) (ts : List Token) :
    nameBegins read n name (.ofSign .opening :: ts) =
      (members read n (if startsWith (.keyword .distinct) ts then ts.tail else ts)).map
        fun (xs, us) =>
          (.call ⟨.named name, startsWith (.keyword .distinct) ts, none⟩ xs, us) := rfl

lemma startsWith_distinct {xs : List Node} (hxs : ∀ x ∈ xs, ReadsExpression x) (distinct : Bool) :
    startsWith (.keyword .distinct) (distinctTokens distinct ++
      (listed (xs.map Node.tokens) ++ .ofSign .closing :: ts)) = distinct := by
  cases distinct with
  | true => rfl
  | false =>
    by_cases hne : xs = []
    · rw [hne]
      rfl
    · exact startsWith_members (.inr rfl) hne hxs ts

/-- A function is told by the name that it is printed under. -/
lemma readsOperand_function (name : String) (distinct : Bool) {xs : List Node}
    (hxs : ∀ x ∈ xs, ReadsExpression x) : ReadsOperand (functionCall name distinct xs) := by
  intro n ts hlength _
  have hcall : functionCall name distinct xs =
      .call ⟨.named (Text.upper name), distinct, none⟩ xs := rfl
  obtain ⟨hform, htokens⟩ := function_named (Text.upper name)
  rw [Node.nested_of_not (Parser.isBracketed_functionCall _ _ _), hcall,
    Node.tokens_function hform, htokens, inBrackets, List.singleton_append] at hlength ⊢
  obtain ⟨n, rfl⟩ := Nat.exists_eq_add_one.2 (Nat.zero_lt_of_lt hlength)
  simp only [List.length_append, List.length_cons] at hlength
  have hmembers := members_listed hxs (n := n) (by omega) ts
  simp only [List.append_assoc, List.cons_append, List.nil_append]
  rw [operand_word, nameBegins_opening, startsWith_distinct hxs distinct]
  cases distinct with
  | false => exact congrArg (Option.map _) hmembers
  | true => exact congrArg (Option.map _) hmembers

/-! ### Casts -/

lemma ofName?_name (t : TypeName) : TypeName.ofName? t.name = some t := by
  have hall : ∀ t ∈ TypeName.all, TypeName.ofName? t.name = some t := by decide
  exact hall t (by cases t <;> decide)

lemma typeSpec_tokens {t : TypeSpec} (ht : t.IsSpelled) (ts : List Token) :
    typeSpec (t.tokens ++ .ofSign .closing :: ts) = some (t, .ofSign .closing :: ts) := by
  have hname (t : TypeName) : TypeName.ofName? (String.ofList t.token.text) = some t := by
    have htext : String.ofList t.token.text = t.name := by
      unfold TypeName.token
      split
      · next h => rw [h]; rfl
      · exact String.ofList_toList
    rw [htext, ofName?_name]
  have hnat (k : Nat) : intTokens k = [.ofNat k] := by simp [intTokens]
  have hsize (k : Nat) : size (.ofNat k) = k := by
    simp [size, Token.ofNat, Text.natOfDigits_digitsOf]
  cases ht with
  | bare type => simp [TypeSpec.tokens, typeSpec, Token.ofSign, hname]
  | sized type p =>
    simp [TypeSpec.tokens, typeSpec, inBrackets, Token.ofSign, hname, hnat, hsize]
  | scaled type p s =>
    simp [TypeSpec.tokens, typeSpec, inBrackets, listed, Token.ofSign, hname, hnat, hsize]

lemma readsOperand_cast (hx : ReadsOperand x) {t : TypeSpec} (ht : t.IsSpelled) :
    ReadsOperand (.apply .cast [x, .typeSpec t]) := by
  intro n ts hlength _
  rw [Node.nested_of_not rfl, Node.apply, Node.tokens_cast rfl, inBrackets] at hlength ⊢
  obtain ⟨n, rfl⟩ := Nat.exists_eq_add_one.2 (Nat.zero_lt_of_lt hlength)
  simp only [List.length_append, List.length_cons] at hlength
  have hread := hx n (.ofKeyword .as :: (t.tokens ++ .ofSign .closing :: ts)) (by omega)
    stops_keyword
  simp only [List.append_assoc, List.cons_append, List.nil_append]
  rw [operand]
  change (operand n (x.nested ++ _)).bind _ = _
  rw [hread]
  change (typeSpec (t.tokens ++ _)).bind _ = _
  rw [typeSpec_tokens ht]
  rfl

/-! ### Trees -/

/-- Whether a tree is told from its tokens. -/
def Reads : Category → Node → Prop
  | .expression, x => ReadsOperand x ∧ ReadsExpression x
  | .item, x => ∀ n, x.tokens.length < n → item n x.tokens = some x
  | _, _ => True

lemma ReadsOperand.reads (h : ReadsOperand x) (hb : x.isBracketed = false) :
    Reads .expression x := ⟨h, h.expression hb⟩

lemma ReadsExpression.reads (h : ReadsExpression x) (hb : x.isBracketed = true) :
    Reads .expression x := ⟨h.operand hb, h⟩

lemma ReadsExpression.item (h : ReadsExpression x) : Reads .item x := by
  intro n hn
  have hread := h n [] hn closes_nil
  rw [List.append_nil] at hread
  rw [Printed.item, hread]
  rfl

lemma reads_named (hx : ReadsOperand x) (name : String) : Reads .item (.named x name) := by
  intro n hn
  have htokens : (Node.named x name).tokens = x.nested ++ [.ofKeyword .as, nameToken name] :=
    Node.tokens_rename rfl _
  rw [htokens] at hn ⊢
  simp only [List.length_append] at hn
  obtain ⟨n, rfl⟩ := Nat.exists_eq_add_one.2 (Nat.zero_lt_of_lt hn)
  have hread := expression_of_operand (hx n [.ofKeyword .as, nameToken name] (by omega)
    stops_keyword) closes_as
  rw [item, hread]
  change some (Node.named x (String.ofList (nameToken name).text)) = _
  rw [ofList_nameToken]

/-- An expression without sub-queries is told from its tokens. -/
theorem reads_of_isParsed {k : Category} (h : x.IsParsed False k) (hx : x.IsBasic) : Reads k x := by
  induction h with
  | column h => exact (readsOperand_column h).reads rfl
  | literal h => exact (readsOperand_literal h.type_eq hx.self.2).reads rfl
  | infixed hop _ _ ihx ihy =>
    have hleft := ihx (hx.operand (by simp))
    have hright := ihy (hx.operand (by simp))
    refine (readsExpression_infixed hop hleft.1 hright.1).reads ?_
    exact Node.isBracketed_of_affix (.inl hop) _
  | prefixed hop hn _ ih =>
    refine (readsOperand_prefixed hop hn (ih (hx.operand (by simp))).1).reads ?_
    simp [Node.apply, Node.isBracketed, Operator.form_of_isPrefix hop]
  | test hop _ ih =>
    refine (readsExpression_test hop (ih (hx.operand (by simp))).1).reads ?_
    exact Node.isBracketed_of_affix (.inr hop) _
  | @function name _ distinct xs _ ih =>
    have hxs : ∀ y ∈ xs, ReadsExpression y := fun y hy => (ih y hy (hx.operand hy)).2
    exact (readsOperand_function name distinct hxs).reads (Parser.isBracketed_functionCall ..)
  | @functionOfAll name _ distinct =>
    have hstar : ReadsExpression star := (readsOperand_column (.inl rfl)).expression rfl
    exact (readsOperand_function name distinct (List.forall_mem_singleton.2 hstar)).reads
      (Parser.isBracketed_functionCall ..)
  | cast _ ht _ ih => exact (readsOperand_cast (ih (hx.operand (by simp))).1 ht).reads rfl
  | @within x xs _ _ _ ihx ih =>
    have hlist : (Node.list xs).IsBasic := hx.operand (by simp)
    have hxs : ∀ y ∈ xs, ReadsExpression y := fun y hy => (ih y hy (hlist.child hy)).2
    exact (readsExpression_within (ihx (hx.operand (by simp))).1 hxs).reads rfl
  | scalarQuery =>
    have hquery := (hx.operand (List.mem_singleton.2 rfl)).self.1
    cases hquery
  | item _ ih => exact (ih hx).2.item
  | all => exact ((readsOperand_column (.inl rfl)).expression rfl).item
  | allOf => exact ((readsOperand_column (.inr rfl)).expression rfl).item
  | @named x _ name _ ih =>
    have hnamed : x.IsBasic := hx.child List.mem_cons_self
    exact reads_named (ih hnamed).1 name
  | table | join | joinOn | query => trivial

/-- **No two expressions are printed as the same tokens.** -/
theorem tokens_injective (h : x.IsParsed False .item) (hx : x.IsBasic)
    (h' : y.IsParsed False .item) (hy : y.IsBasic) (htokens : x.tokens = y.tokens) : x = y := by
  have hread := reads_of_isParsed h hx (x.tokens.length + 1) (Nat.lt_succ_self _)
  rw [htokens, reads_of_isParsed h' hy _ (Nat.lt_succ_self _)] at hread
  exact (Option.some.inj hread).symm

end Printed

end GraphSelect
