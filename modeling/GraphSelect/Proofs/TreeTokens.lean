import GraphSelect.Proofs.Parsing
import GraphSelect.Proofs.Spelling
import GraphSelect.Proofs.WholeTrees
import Mathlib.Data.List.Forall2

/-!
The tokens that a tree is printed as.

The text of a tree is made of tokens, and which ones follows the tree as the text does. If the names
in a tree are words, and its constants whole numbers, texts, truth values or `NULL`, then its text
spells these tokens.
-/

namespace GraphSelect

def Comparison.sign : Comparison → Sign
  | .equal => .equal
  | .notEqual => .unequal
  | .less => .less
  | .greater => .greater
  | .lessOrEqual => .lessOrEqual
  | .greaterOrEqual => .greaterOrEqual

def Arithmetic.sign : Arithmetic → Sign
  | .plus => .plus
  | .minus => .minus
  | .times => .star
  | .divide => .slash
  | .modulo => .percent

def Operator.tokens : Operator → List Token
  | .comparison c => [.ofSign c.sign]
  | .and => [.ofKeyword .and]
  | .or => [.ofKeyword .or]
  | .not => [.ofKeyword .not]
  | .isNull => [.ofKeyword .is, .ofKeyword .null]
  | .isNotNull => [.ofKeyword .is, .ofKeyword .not, .ofKeyword .null]
  | .arithmetic a => [.ofSign a.sign]
  | .negate => [.ofSign .minus]
  | .cast => [.ofKeyword .cast]
  | .aggregate a => [.word a.name]
  | .rename => [.ofKeyword .as]
  | .scalarQuery => [.word "SCALAR_QUERY"]
  | .like => [.ofKeyword .like]
  | .within => [.ofKeyword .in]
  | .function name => [.word name]

def inBrackets (ts : List Token) : List Token :=
  .ofSign .opening :: (ts ++ [.ofSign .closing])

def listed (tss : List (List Token)) : List Token :=
  [Token.ofSign .comma].intercalate tss

lemma listed_cons_cons (ts us : List Token) (tss : List (List Token)) :
    listed (ts :: us :: tss) = ts ++ .ofSign .comma :: listed (us :: tss) := by
  simp [listed]

/-- A name or a star, as the last of the names of a column can be. -/
def nameToken (name : String) : Token :=
  if name = "*" then .ofSign .star else .word name

def Identifier.tokens (i : Identifier) : List Token :=
  [Token.ofSign .dot].intercalate (i.names.map fun name => [nameToken name])

def intTokens (n : Int) : List Token :=
  if n < 0 then [.ofSign .minus, .ofNat n.natAbs] else [.ofNat n.natAbs]

def Value.tokens : Value → List Token
  | .null => [.ofKeyword .null]
  | .bool b => [.ofKeyword (if b then .true else .false)]
  | .int n => intTokens n
  | .chars s => [.ofChars s]
  | _ => []

/-- The name of a type. `NULL` is a keyword. -/
def TypeName.token (t : TypeName) : Token :=
  if t = .null then .ofKeyword .null else .word t.name

def TypeSpec.tokens (t : TypeSpec) : List Token :=
  match t.precision, t.scale with
  | none, _ => [t.type.token]
  | some p, none => t.type.token :: inBrackets (intTokens p)
  | some p, some s => t.type.token :: inBrackets (listed [intTokens p, intTokens s])

def TableRef.tokens (t : TableRef) : List Token :=
  match t.asName? with
  | some a => [.word t.name, .ofKeyword .as, .word a]
  | none => [.word t.name]

def JoinKind.tokens : JoinKind → List Token
  | .inner => [.ofKeyword .inner, .ofKeyword .join]
  | .left => [.ofKeyword .left, .ofKeyword .join]
  | .right => [.ofKeyword .right, .ofKeyword .join]
  | .full => [.ofKeyword .full, .ofKeyword .join]
  | .cross => [.ofKeyword .cross, .ofKeyword .join]
  | .comma => [.ofSign .comma]

/-- The tokens of a clause behind its keywords, if it is there. -/
def clauseTokens (ks : List Keyword) : Option (List Token) → List Token
  | none => []
  | some ts => ks.map .ofKeyword ++ ts

/-- The tokens of a clause of several entries, if it has any. -/
def clausesTokens (ks : List Keyword) : List (List Token) → List Token
  | [] => []
  | tss => ks.map .ofKeyword ++ listed tss

def keyTokens (k : SortKey (List Token)) : List Token :=
  k.expression ++ [.ofKeyword (if k.descending then .desc else .asc)]

def distinctTokens (distinct : Bool) : List Token :=
  if distinct then [.ofKeyword .distinct] else []

/-- The tokens of a select behind its first word. -/
def selectTokens (s : SelectOf (List Token)) : List Token :=
  distinctTokens s.distinct ++ listed s.items ++ clauseTokens [.from] s.source ++
    clauseTokens [.where] s.filter ++ clausesTokens [.group, .by] s.groupBy ++
    clauseTokens [.having] s.having ++ clausesTokens [.order, .by] (s.orderBy.map keyTokens) ++
    clauseTokens [.limit] (s.limit.map (·.value.tokens)) ++
    clauseTokens [.offset] (s.offset.map (·.value.tokens))

/-- The tokens of a call from those of its operands, where `nested` has them in brackets. -/
def callTokens (c : Call) (plain nested : List (List Token)) : List Token :=
  match c.operator.form, nested with
  | .between, [x, y] => x ++ c.operator.tokens ++ y
  | .before, [x] => c.operator.tokens ++ x
  | .after, [x] => x ++ c.operator.tokens
  | .special, [x, t] => .ofKeyword .cast :: inBrackets (x ++ .ofKeyword .as :: t)
  | .special, [q] => inBrackets q
  | _, _ => c.operator.tokens ++ inBrackets (distinctTokens c.distinct ++ listed plain)

namespace Node

def nestTokens (n : Node) (ts : List Token) : List Token :=
  if n.isBracketed then inBrackets ts else ts

mutual
def tokens : Node → List Token
  | .identifier i => i.tokens
  | .literal l => l.value.tokens
  | .typeSpec t => t.tokens
  | .list nodes => inBrackets (listed (tokensEach nodes))
  | .call c operands =>
    callTokens c (tokensEach operands) (List.zipWith nestTokens operands (tokensEach operands))
  | .table t => t.tokens
  | .join left .comma right _ => left.tokens ++ JoinKind.comma.tokens ++ right.tokens
  | .join left kind right condition =>
    left.tokens ++ kind.tokens ++ right.tokens ++ clauseTokens [.on] (tokensOption condition)
  | .order ⟨expression, descending⟩ => keyTokens ⟨expression.tokens, descending⟩
  | .select ⟨distinct, items, source, filter, groupBy, having, orderBy, limit, offset⟩ =>
    .ofKeyword .select :: selectTokens ⟨distinct, tokensEach items, tokensOption source,
      tokensOption filter, tokensEach groupBy, tokensOption having, tokensKeys orderBy, limit,
      offset⟩

def tokensEach : List Node → List (List Token)
  | [] => []
  | n :: ns => n.tokens :: tokensEach ns

def tokensOption : Option Node → Option (List Token)
  | none => none
  | some n => some n.tokens

def tokensKeys : List (SortKey Node) → List (SortKey (List Token))
  | [] => []
  | ⟨expression, descending⟩ :: keys => ⟨expression.tokens, descending⟩ :: tokensKeys keys
end

/-- The tokens of an operand, in brackets if it needs them. -/
def nested (n : Node) : List Token := n.nestTokens n.tokens

lemma tokensEach_eq_map (ns : List Node) : tokensEach ns = ns.map tokens := by
  induction ns with
  | nil => rfl
  | cons n ns ih => simp [tokensEach, ih]

lemma tokens_call (c : Call) (ns : List Node) :
    (Node.call c ns).tokens = callTokens c (ns.map tokens) (ns.map nested) := by
  rw [tokens, tokensEach_eq_map, List.zipWith_map_right, List.zipWith_self]
  rfl

variable {c : Call} {x y : Node}

lemma nested_of_not (h : x.isBracketed = false) : x.nested = x.tokens := by
  simp [nested, nestTokens, h]

lemma nested_of_isBracketed (h : x.isBracketed = true) :
    x.nested = inBrackets x.tokens := by
  simp [nested, nestTokens, h]

-- What a call is printed as depends on the form of its operator.
attribute [local simp] callTokens

lemma tokens_between (hc : c.operator.form = .between) :
    (Node.call c [x, y]).tokens = x.nested ++ (c.operator.tokens ++ y.nested) := by
  simp [tokens_call, hc]

lemma tokens_before (hc : c.operator.form = .before) :
    (Node.call c [x]).tokens = c.operator.tokens ++ x.nested := by
  simp [tokens_call, hc]

lemma tokens_after (hc : c.operator.form = .after) :
    (Node.call c [x]).tokens = x.nested ++ c.operator.tokens := by
  simp [tokens_call, hc]

lemma tokens_function (hc : c.operator.form = .function) (ns : List Node) :
    (Node.call c ns).tokens = c.operator.tokens ++
      inBrackets (distinctTokens c.distinct ++ listed (ns.map tokens)) := by
  simp [tokens_call, hc]

lemma tokens_cast (hc : c.operator = .cast) (t : TypeSpec) :
    (Node.call c [x, .typeSpec t]).tokens =
      .ofKeyword .cast :: inBrackets (x.nested ++ .ofKeyword .as :: t.tokens) := by
  have htype : (Node.typeSpec t).nested = t.tokens := by
    rw [nested_of_not rfl, tokens]
  simp [tokens_call, hc, Operator.form, htype]

lemma tokens_scalarQuery (hc : c.operator = .scalarQuery) (q : Select) :
    (Node.call c [.select q]).tokens = inBrackets (Node.select q).tokens := by
  simp [tokens_call, hc, Operator.form, nested_of_not (x := .select q) rfl]

lemma tokens_rename (hc : c.operator = .rename) (i : Identifier) :
    (Node.call c [x, .identifier i]).tokens = x.nested ++ .ofKeyword .as :: i.tokens := by
  have hname : (Node.identifier i).nested = i.tokens := by
    rw [nested_of_not rfl, tokens]
  simp [tokens_call, hc, Operator.form, Operator.tokens, hname]

lemma tokens_list (ns : List Node) :
    (Node.list ns).tokens = inBrackets (listed (ns.map tokens)) := by
  rw [tokens, tokensEach_eq_map]

lemma tokens_within (hc : c.operator = .within) (ns : List Node) :
    (Node.call c [x, .list ns]).tokens =
      x.nested ++ .ofKeyword .in :: inBrackets (listed (ns.map tokens)) := by
  rw [tokens_between (by rw [hc]; rfl), hc, nested_of_not (x := .list ns) rfl, tokens_list]
  rfl

end Node

/-! ### Texts of tokens -/

namespace Spells

variable {ts us : List Token} {cs ds : List Char}

lemma blank (h : Spells ts cs) (h' : Spells us ds) : Spells (ts ++ us) (cs ++ ' ' :: ds) :=
  h.append h'.gap (by simp [isBreak])

lemma keyword (k : Keyword) (h : Spells ts cs) :
    Spells (.ofKeyword k :: ts) (k.capitals ++ ' ' :: cs) :=
  (single (.ofKeyword k)).blank h

lemma bracketed (h : Spells ts cs) : Spells (inBrackets ts) ('(' :: (cs ++ [')'])) :=
  token (.ofSign .opening) (fun _ _ => rfl)
    (h.append (single (.ofSign .closing)) (by rintro _ ⟨⟩; rfl))

lemma comma (h : Spells ts cs) (h' : Spells us ds) :
    Spells (ts ++ .ofSign .comma :: us) (cs ++ ',' :: ' ' :: ds) :=
  h.append (token (.ofSign .comma) (fun _ _ => rfl) h'.gap)
    (by rintro _ ⟨⟩; rfl)

lemma commas {tss : List (List Token)} {ws : List String}
    (h : List.Forall₂ (fun ts (w : String) => Spells ts w.toList) tss ws) :
    Spells (listed tss) (Node.commas ws).toList := by
  induction h with
  | nil => exact .nil
  | @cons ts w tss ws hw h ih =>
    cases h with
    | nil => simpa [listed, Node.commas] using hw
    | @cons us v tss ws hv h =>
      have htext : (Node.commas (w :: v :: ws)).toList =
          w.toList ++ ',' :: ' ' :: (Node.commas (v :: ws)).toList := by
        simp [Node.commas, String.intercalate_cons_cons]
      rw [listed_cons_cons, htext]
      exact hw.comma ih

end Spells

lemma isPlainWord_aggregate (a : Aggregate) : isPlainWord a.name.toList = true := by
  cases a <;> decide

lemma Operator.spells {op : Operator}
    (h : ∀ name, op = .function name → isPlainWord name.toList = true) :
    Spells op.tokens op.name.toList := by
  cases op with
  | comparison c => cases c <;> exact .single (.ofSign _)
  | arithmetic a => cases a <;> exact .single (.ofSign _)
  | negate => exact .single (.ofSign _)
  | aggregate a => exact .single (.word (isPlainWord_aggregate a))
  | function name => exact .single (.word (h name rfl))
  | scalarQuery => exact .single (.word (by decide))
  | isNull => exact .keyword .is (.single (.ofKeyword .null))
  | isNotNull => exact .keyword .is (.keyword .not (.single (.ofKeyword .null)))
  | _ => exact .single (.ofKeyword _)

lemma spells_int (n : Int) : Spells (intTokens n) (Text.ofInt n).toList := by
  have hdigits : Spells [.ofNat n.natAbs] (Text.digitsOf n.natAbs) := .single (.ofNat _)
  rw [Text.ofInt, String.toList_ofList]
  unfold intTokens
  split
  · exact .token (.ofSign .minus) (fun _ _ => rfl) hdigits
  · exact hdigits

lemma Literal.spells {l : Literal} (h : l.isPlain = true) :
    Spells l.value.tokens l.value.sql.toList := by
  unfold isPlain at h
  split at h
  · next n hn =>
    rw [hn]
    exact spells_int n
  · next s hs =>
    rw [hs]
    exact .single (.ofChars s)
  · next b hb =>
    rw [hb]
    cases b <;> exact .single (.ofKeyword _)
  · next hnull =>
    rw [hnull]
    exact .single (.ofKeyword .null)
  · cases h

/-- A token with brackets behind it. -/
lemma Spells.call {t : Token} {ts : List Token} {cs : List Char} (ht : t.IsPrinted)
    (hstop : t.stopsAt '(' = true) (h : Spells ts cs) :
    Spells (t :: inBrackets ts) (t.text ++ '(' :: (cs ++ [')'])) :=
  token ht (by rintro _ ⟨⟩; exact hstop) h.bracketed

lemma TypeSpec.spells (t : TypeSpec) : Spells t.tokens t.text.toList := by
  have hprinted : t.type.token.IsPrinted ∧ t.type.token.text = t.type.name.toList ∧
      t.type.token.stopsAt '(' = true := by
    unfold TypeName.token
    split
    · next h =>
      rw [h]
      exact ⟨.ofKeyword _, rfl, by decide⟩
    · next h =>
      have hword : ∀ t ∈ TypeName.all, t ≠ .null → isPlainWord t.name.toList = true := by decide
      exact ⟨.word (hword t.type (by cases t.type <;> decide) h), rfl, rfl⟩
  obtain ⟨hname, htext, hstop⟩ := hprinted
  unfold TypeSpec.tokens TypeSpec.text
  split
  · next h =>
    simpa [htext, h] using Spells.single hname
  · next p h hs =>
    simpa [htext, h, hs] using Spells.call hname hstop (spells_int p)
  · next p s h hs =>
    have hsizes : Spells (listed [intTokens p, intTokens s])
        (Node.commas [Text.ofInt p, Text.ofInt s]).toList :=
      .commas (.cons (spells_int p) (.cons (spells_int s) .nil))
    simpa [htext, h, hs, Node.commas] using Spells.call hname hstop hsizes

/-- A name or a star, which ends before a point. -/
lemma isPrinted_nameToken {name : String} (h : isPlainWord name.toList = true ∨ name = "*") :
    (nameToken name).IsPrinted ∧ (nameToken name).text = name.toList ∧
      (nameToken name).stopsAt '.' = true ∧ ∀ c ∈ name.toList.head?, Text.isDigit c = false := by
  unfold nameToken
  split
  · next h =>
    rw [h]
    exact ⟨.ofSign .star, rfl, rfl, by decide⟩
  · next hstar =>
    have hword := h.resolve_right hstar
    obtain ⟨⟨c, cs, hname, hc, -⟩, -⟩ := isPlainWord_eq_true hword
    refine ⟨.word hword, rfl, rfl, ?_⟩
    rw [hname]
    rintro _ ⟨⟩
    exact Token.isDigit_of_isNameStart hc

lemma Identifier.spells {i : Identifier} (hi : i.names.length = 1 ∨ i.names.length = 2)
    (h : ∀ name ∈ i.names, isPlainWord name.toList = true ∨ name = "*") :
    Spells i.tokens i.text.toList := by
  obtain ⟨names, type⟩ := i
  match names, hi with
  | [a], _ =>
    obtain ⟨ha, htext, -⟩ := isPrinted_nameToken (h a (by simp))
    simpa [tokens, text, htext] using Spells.single ha
  | [a, b], _ =>
    obtain ⟨ha, htext, hstop, -⟩ := isPrinted_nameToken (h a (by simp))
    obtain ⟨hb, htext', -, hdigit⟩ := isPrinted_nameToken (h b (by simp))
    have hlast : Spells [nameToken b] b.toList := by
      rw [← htext']
      exact .single hb
    have hpoint : Spells [.ofSign .dot, nameToken b] ('.' :: b.toList) :=
      .token (.ofSign .dot) (fun c hc => by simp [Token.stopsAt, Token.ofSign, hdigit c hc]) hlast
    have hboth := Spells.token ha (by rintro _ ⟨⟩; exact hstop) hpoint
    simpa [tokens, text, htext, String.intercalate_cons_cons] using hboth

lemma TableRef.HasPlainNames.asName?_eq {t : TableRef} (h : t.HasPlainNames) :
    t.asName? = t.asName := by
  unfold asName?
  cases ha : t.asName with
  | none => rfl
  | some a =>
    have hne : a ≠ "" := by
      rintro rfl
      exact absurd (h.2 "" ha) (by decide)
    simp [hne]

lemma TableRef.spells {t : TableRef} (h : t.HasPlainNames) : Spells t.tokens t.text.toList := by
  unfold tokens text
  rw [h.asName?_eq]
  cases ha : t.asName with
  | none => exact .single (.word h.1)
  | some a =>
    have has := (Spells.single (.word h.1)).blank (.keyword .as (.single (.word (h.2 a ha))))
    simpa [Token.word, Keyword.capitals, Keyword.letters] using has

/-! ### Texts of trees -/

lemma Operator.form_of_isInfix {op : Operator} (h : op.isInfix = true) : op.form = .between := by
  cases op <;> simp_all [isInfix, form]

lemma Operator.form_of_isPrefix {op : Operator} (h : op.isPrefix = true) : op.form = .before := by
  cases op <;> simp_all [isPrefix, form]

lemma Operator.form_of_isTest {op : Operator} (h : op.isTest = true) : op.form = .after := by
  cases op <;> simp_all [isTest, form]

namespace Node

/-- Whether the names that a node has itself are words, and its constants plain. -/
def HasPlainWords : Node → Prop
  | .identifier i => ∀ name ∈ i.names, isPlainWord name.toList = true ∨ name = "*"
  | .literal l => l.isPlain = true
  | .call c _ => ∀ name, c.operator = .function name → isPlainWord name.toList = true
  | .table t => t.HasPlainNames
  | .select q => (∀ l ∈ q.limit, l.isPlain = true) ∧ ∀ l ∈ q.offset, l.isPlain = true
  | _ => True

/-- Whether there is a text, and it spells tokens. -/
def TextSpells (text : Option String) (ts : List Token) : Prop :=
  ∃ w, text = some w ∧ Spells ts w.toList

/-- Whether the text of a node spells its tokens. -/
def Prints (n : Node) : Prop := TextSpells n.sql? n.tokens

variable {c : Call} {x y : Node} {a b : String}

lemma spells_bracket (h : Spells x.tokens a.toList) : Spells x.nested (x.bracket a).toList := by
  unfold nested nestTokens bracket
  split
  · simpa using h.bracketed
  · exact h

lemma Prints.nested (h : x.Prints) : TextSpells (x.sql?.map x.bracket) x.nested := by
  obtain ⟨w, hw, hs⟩ := h
  exact ⟨x.bracket w, by rw [hw]; rfl, spells_bracket hs⟩

lemma prints_between (hc : c.operator.form = .between) (hop : (Node.call c [x, y]).HasPlainWords)
    (hx : x.Prints) (hy : y.Prints) : (Node.call c [x, y]).Prints := by
  obtain ⟨a, ha, hsx⟩ := hx.nested
  obtain ⟨b, hb, hsy⟩ := hy.nested
  refine ⟨a ++ " " ++ c.operator.name ++ " " ++ b, ?_, ?_⟩
  · rw [sql?_call]
    cases hop : c.operator <;> simp [hop, Operator.form] at hc <;>
      simp [callText?, hop, Operator.form, ha, hb]
  · rw [tokens_between hc]
    simpa using hsx.blank ((Operator.spells hop).blank hsy)

/-- A word before its operand is set off by a blank, and a sign is not. -/
lemma prints_before (hc : c.operator.isPrefix = true) (hx : x.Prints) :
    (Node.call c [x]).Prints := by
  obtain ⟨a, ha, hsx⟩ := hx.nested
  have hoperator : c.operator = .not ∨ c.operator = .negate := by
    cases h : c.operator <;> simp_all [Operator.isPrefix]
  rcases hoperator with h | h
  · refine ⟨"NOT " ++ a, by simp [sql?_call, callText?, h, Operator.form, ha, isWord,
      Operator.name], ?_⟩
    rw [tokens_before (Operator.form_of_isPrefix hc), h, String.toList_append]
    exact hsx.keyword .not
  · refine ⟨"-" ++ a, by simp [sql?_call, callText?, h, Operator.form, ha, isWord,
      Operator.name], ?_⟩
    rw [tokens_before (Operator.form_of_isPrefix hc), h, String.toList_append]
    exact .token (.ofSign .minus) (fun _ _ => rfl) hsx

lemma prints_after (hc : c.operator.isTest = true) (hx : x.Prints) : (Node.call c [x]).Prints := by
  obtain ⟨a, ha, hsx⟩ := hx.nested
  refine ⟨a ++ " " ++ c.operator.name, ?_, ?_⟩
  · rw [sql?_call]
    cases hop : c.operator <;> simp [hop, Operator.isTest] at hc <;>
      simp [callText?, hop, Operator.form, ha]
  · have hop : ∀ name, c.operator = .function name → isPlainWord name.toList = true := by
      rintro name h
      simp [h, Operator.isTest] at hc
    rw [tokens_after (Operator.form_of_isTest hc)]
    simpa using hsx.blank (Operator.spells hop)

/-- Several things have texts if each of them has one. -/
lemma exists_texts {α : Type} {text : α → Option String} {ts : α → List Token} {xs : List α}
    (h : ∀ x ∈ xs, TextSpells (text x) (ts x)) : ∃ ws, (xs.map text).mapM id = some ws ∧
      List.Forall₂ (fun ts (w : String) => Spells ts w.toList) (xs.map ts) ws := by
  induction xs with
  | nil => exact ⟨[], rfl, .nil⟩
  | cons x xs ih =>
    obtain ⟨⟨w, hw, hs⟩, hxs⟩ := List.forall_mem_cons.1 h
    obtain ⟨ws, hws, hss⟩ := ih hxs
    exact ⟨w :: ws, by simp [hw, hws], .cons hs hss⟩

lemma prints_list {ns : List Node} (h : ∀ n ∈ ns, n.Prints) : (Node.list ns).Prints := by
  obtain ⟨ws, hws, hs⟩ := exists_texts h
  refine ⟨"(" ++ commas ws ++ ")", by simp [sql?, sqlEach_eq_map, hws], ?_⟩
  rw [tokens_list]
  simpa using (Spells.commas hs).bracketed

/-- A function is written with its name, which is a word. -/
lemma function_cases {name : String} (hc : c.operator = .ofFunctionName name) {ns : List Node}
    (hop : (Node.call c ns).HasPlainWords) : c.operator.form = .function ∧
      c.operator.tokens = [.word c.operator.name] ∧
      isPlainWord c.operator.name.toList = true := by
  unfold Operator.ofFunctionName at hc
  dsimp only at hc
  split at hc
  · next a _ =>
    rw [hc]
    exact ⟨rfl, rfl, isPlainWord_aggregate a⟩
  · have hword := hop _ hc
    rw [hc]
    exact ⟨rfl, rfl, hword⟩

lemma sql?_function (hc : c.operator.form = .function) {ns : List Node} {ws : List String}
    (hws : (ns.map sql?).mapM id = some ws) : (Node.call c ns).sql? = some
      (c.operator.name ++ "(" ++ (if c.distinct then "DISTINCT " else "") ++ commas ws ++ ")") := by
  rw [sql?_call]
  cases hop : c.operator <;> simp [hop, Operator.form] at hc <;>
    simp [callText?, hop, Operator.form, hws]

lemma prints_function {name : String} (hc : c.operator = .ofFunctionName name) {ns : List Node}
    (hop : (Node.call c ns).HasPlainWords) (hns : ∀ n ∈ ns, n.Prints) :
    (Node.call c ns).Prints := by
  obtain ⟨ws, hws, hs⟩ := exists_texts hns
  obtain ⟨hform, hname, hword⟩ := function_cases hc hop
  refine ⟨_, sql?_function hform hws, ?_⟩
  rw [tokens_function hform, hname]
  cases hdistinct : c.distinct with
  | false =>
    have hcall := Spells.call (.word hword) rfl (Spells.commas hs)
    simpa [distinctTokens, Token.word] using hcall
  | true =>
    have hcall := Spells.call (.word hword) rfl ((Spells.commas hs).keyword .distinct)
    simpa [distinctTokens, Token.word, Keyword.capitals, Keyword.letters] using hcall

lemma prints_cast (hc : c.operator = .cast) (t : TypeSpec) (hx : x.Prints) :
    (Node.call c [x, .typeSpec t]).Prints := by
  obtain ⟨a, ha, hsx⟩ := hx.nested
  have htext : (Node.typeSpec t).sql? = some t.text := by rw [sql?]
  refine ⟨"CAST(" ++ a ++ " AS " ++ t.text ++ ")", ?_, ?_⟩
  · simp [sql?_call, callText?, hc, ha, htext]
  · have hcall := Spells.call (.ofKeyword .cast) rfl (hsx.blank (.keyword .as t.spells))
    rw [tokens_cast hc]
    simpa [Token.ofKeyword, Keyword.capitals, Keyword.letters] using hcall

lemma prints_scalarQuery (hc : c.operator = .scalarQuery) {q : Select}
    (hq : (Node.select q).Prints) : (Node.call c [.select q]).Prints := by
  obtain ⟨w, hw, hs⟩ := hq
  refine ⟨"(" ++ w ++ ")", by simp [sql?_call, callText?, hc, hw], ?_⟩
  rw [tokens_scalarQuery hc]
  simpa using hs.bracketed

end Node

/-! ### Tables and selects -/

namespace Node

lemma tokensOption_eq_map (n : Option Node) : tokensOption n = n.map tokens := by
  cases n <;> rfl

lemma tokensKeys_eq_map (keys : List (SortKey Node)) :
    tokensKeys keys = keys.map fun k => ⟨k.expression.tokens, k.descending⟩ := by
  induction keys with
  | nil => rfl
  | cons k keys ih => simp [tokensKeys, ih]

lemma tokens_join (x y : Node) {kind : JoinKind} (hkind : kind ≠ .comma) (condition : Option Node) :
    (Node.join x kind y condition).tokens =
      x.tokens ++ (kind.tokens ++ (y.tokens ++ clauseTokens [.on] (condition.map tokens))) := by
  rw [← tokensOption_eq_map]
  cases kind <;> simp_all [tokens]

lemma tokens_comma (x y : Node) (condition : Option Node) :
    (Node.join x .comma y condition).tokens = x.tokens ++ .ofSign .comma :: y.tokens := by
  simp [tokens, JoinKind.tokens]

lemma spells_joinKind {kind : JoinKind} (hkind : kind ≠ .comma) {ts : List Token} {cs : List Char}
    (h : Spells ts cs) :
    Spells (kind.tokens ++ ts) ((kind.name ++ " JOIN ").toList ++ cs) := by
  cases kind with
  | inner => exact .keyword .inner (.keyword .join h)
  | left => exact .keyword .left (.keyword .join h)
  | right => exact .keyword .right (.keyword .join h)
  | full => exact .keyword .full (.keyword .join h)
  | cross => exact .keyword .cross (.keyword .join h)
  | comma => exact absurd rfl hkind

lemma prints_join {t : TableRef} (hx : x.Prints) (kind : JoinKind) (ht : t.HasPlainNames)
    {condition : Option Node} (hcondition : ∀ y ∈ condition, y.Prints) :
    (Node.join x kind (.table t) condition).Prints := by
  obtain ⟨w, hw, hs⟩ := hx
  have htext : (Node.table t).sql? = some t.text := by rw [sql?]
  have htable : (Node.table t).tokens = t.tokens := by rw [tokens]
  by_cases hkind : kind = .comma
  · subst hkind
    have hboth := hs.comma (TableRef.spells ht)
    refine ⟨w ++ ", " ++ t.text, ?_, ?_⟩
    · cases condition <;> simp [sql?, joinText?, hw]
    · rw [tokens_comma, htable]
      simpa using hboth
  · rw [Prints, tokens_join _ _ hkind, htable]
    cases condition with
    | none =>
      have hboth := hs.blank (spells_joinKind hkind (TableRef.spells ht))
      refine ⟨w ++ " " ++ kind.name ++ " JOIN " ++ t.text, ?_, ?_⟩
      · simp [sql?, joinText?, hw, hkind, clause?, String.join]
      · simpa [clauseTokens] using hboth
    | some y =>
      obtain ⟨v, hv, hsy⟩ := hcondition y rfl
      have hboth := hs.blank (spells_joinKind hkind ((TableRef.spells ht).blank (hsy.keyword .on)))
      refine ⟨w ++ " " ++ kind.name ++ " JOIN " ++ t.text ++ " ON " ++ v, ?_, ?_⟩
      · simp [sql?, joinText?, hw, hv, hkind, clause?, String.join, String.append_assoc]
      · simpa [clauseTokens, Keyword.capitals, Keyword.letters] using hboth

/-- Whether the texts of the parts of a select spell tokens, one part after the other. -/
def PartsSpell (ts : List Token) (ws : List String) : Prop :=
  ∃ tss, ts = tss.flatten ∧ List.Forall₂ (fun ts (w : String) => Spells ts w.toList) tss ws

lemma PartsSpell.append {ts us : List Token} {ws vs : List String} (h : PartsSpell ts ws)
    (h' : PartsSpell us vs) : PartsSpell (ts ++ us) (ws ++ vs) := by
  obtain ⟨tss, rfl, h⟩ := h
  obtain ⟨uss, rfl, h'⟩ := h'
  exact ⟨tss ++ uss, List.flatten_append.symm, List.rel_append h h'⟩

lemma PartsSpell.single {ts : List Token} {w : String} (h : Spells ts w.toList) :
    PartsSpell ts [w] :=
  ⟨[ts], by simp, .cons h .nil⟩

/-- The parts of a select stand behind each other with blanks between them. -/
lemma PartsSpell.spells {ts : List Token} {ws : List String} (h : PartsSpell ts ws) :
    Spells ts (" ".intercalate ws).toList := by
  obtain ⟨tss, rfl, h⟩ := h
  induction h with
  | nil => exact .nil
  | @cons ts w tss ws hw h ih =>
    cases h with
    | nil => simpa using hw
    | cons hv h => simpa [String.intercalate_cons_cons] using hw.blank ih

/-- How the keywords of a clause are written before it. -/
def KeywordsSpell (ks : List Keyword) (text : String) : Prop :=
  ∀ ts cs, Spells ts cs → Spells (ks.map .ofKeyword ++ ts) (text.toList ++ cs)

variable {α : Type} {text : α → Option String} {ts : α → List Token} {ks : List Keyword}
  {keyword : String}

lemma exists_clauseParts (hk : KeywordsSpell ks keyword) {x : Option α}
    (h : ∀ a ∈ x, TextSpells (text a) (ts a)) : ∃ ws, clause? keyword (x.map text) = some ws ∧
      PartsSpell (clauseTokens ks (x.map ts)) ws := by
  cases x with
  | none => exact ⟨[], rfl, [], rfl, .nil⟩
  | some a =>
    obtain ⟨w, hw, hs⟩ := h a rfl
    refine ⟨[keyword ++ w], by simp [clause?, hw], .single ?_⟩
    rw [String.toList_append]
    exact hk _ _ hs

lemma exists_clausesParts (hk : KeywordsSpell ks keyword) {xs : List α}
    (h : ∀ a ∈ xs, TextSpells (text a) (ts a)) : ∃ ws, clauses? keyword (xs.map text) = some ws ∧
      PartsSpell (clausesTokens ks (xs.map ts)) ws := by
  cases xs with
  | nil => exact ⟨[], rfl, [], rfl, .nil⟩
  | cons a xs =>
    obtain ⟨ws, hws, hs⟩ := exists_texts h
    refine ⟨[keyword ++ commas ws], ?_, .single ?_⟩
    · rw [List.map_cons] at hws
      simp [clauses?, hws]
    · rw [String.toList_append]
      exact hk _ _ (.commas hs)

lemma sql?_select (q : Select) : (Node.select q).sql? = selectText? ⟨q.distinct, q.items.map sql?,
    q.source.map sql?, q.filter.map sql?, q.groupBy.map sql?, q.having.map sql?,
    q.orderBy.map fun k => ⟨k.expression.sql?, k.descending⟩, q.limit, q.offset⟩ := by
  obtain ⟨distinct, items, source, filter, groupBy, having, orderBy, limit, offset⟩ := q
  simp only [sql?, sqlEach_eq_map, sqlOption_eq_map, sqlKeys_eq_map]

lemma tokens_select (q : Select) : (Node.select q).tokens = .ofKeyword .select :: selectTokens
    ⟨q.distinct, q.items.map tokens, q.source.map tokens, q.filter.map tokens,
      q.groupBy.map tokens, q.having.map tokens,
      q.orderBy.map fun k => ⟨k.expression.tokens, k.descending⟩, q.limit, q.offset⟩ := by
  obtain ⟨distinct, items, source, filter, groupBy, having, orderBy, limit, offset⟩ := q
  simp only [tokens, tokensEach_eq_map, tokensOption_eq_map, tokensKeys_eq_map]

lemma prints_key {k : SortKey Node} (h : k.expression.Prints) :
    TextSpells (k.expression.sql?.map (sortText k.descending))
      (keyTokens ⟨k.expression.tokens, k.descending⟩) := by
  obtain ⟨w, hw, hs⟩ := h
  refine ⟨sortText k.descending w, by rw [hw]; rfl, ?_⟩
  unfold keyTokens sortText
  rw [String.toList_append]
  cases k.descending with
  | false => exact hs.blank (.single (.ofKeyword .asc))
  | true => exact hs.blank (.single (.ofKeyword .desc))

lemma prints_select {q : Select} (hq : (Node.select q).HasPlainWords)
    (h : ∀ n ∈ (Node.select q).children, n.Prints) : (Node.select q).Prints := by
  simp only [children, List.forall_mem_append, Option.mem_toList, List.forall_mem_map] at h
  obtain ⟨⟨⟨⟨⟨hitems, hsource⟩, hfilter⟩, hgroupBy⟩, hhaving⟩, horderBy⟩ := h
  have hcount {l : Option Literal} (hl : ∀ l' ∈ l, l'.isPlain = true) :
      ∀ l' ∈ l, TextSpells (some l'.value.sql) l'.value.tokens :=
    fun l' hl' => ⟨_, rfl, Literal.spells (hl l' hl')⟩
  have hkFrom : KeywordsSpell [.from] "FROM " := fun _ _ h => h.keyword .from
  have hkWhere : KeywordsSpell [.where] "WHERE " := fun _ _ h => h.keyword .where
  have hkGroup : KeywordsSpell [.group, .by] "GROUP BY " :=
    fun _ _ h => (h.keyword .by).keyword .group
  have hkHaving : KeywordsSpell [.having] "HAVING " := fun _ _ h => h.keyword .having
  have hkOrder : KeywordsSpell [.order, .by] "ORDER BY " :=
    fun _ _ h => (h.keyword .by).keyword .order
  have hkLimit : KeywordsSpell [.limit] "LIMIT " := fun _ _ h => h.keyword .limit
  have hkOffset : KeywordsSpell [.offset] "OFFSET " := fun _ _ h => h.keyword .offset
  obtain ⟨items, h₁, hs₁⟩ := exists_texts hitems
  obtain ⟨source, h₂, hs₂⟩ := exists_clauseParts hkFrom hsource
  obtain ⟨filter, h₃, hs₃⟩ := exists_clauseParts hkWhere hfilter
  obtain ⟨groups, h₄, hs₄⟩ := exists_clausesParts hkGroup hgroupBy
  obtain ⟨having, h₅, hs₅⟩ := exists_clauseParts hkHaving hhaving
  obtain ⟨keys, h₆, hs₆⟩ := exists_clausesParts hkOrder fun k hk => prints_key (horderBy k hk)
  obtain ⟨limit, h₇, hs₇⟩ := exists_clauseParts hkLimit (hcount hq.1)
  obtain ⟨offset, h₈, hs₈⟩ := exists_clauseParts hkOffset (hcount hq.2)
  have hword : PartsSpell [.ofKeyword .select] ["SELECT"] := .single (.single (.ofKeyword .select))
  have hdistinct : PartsSpell (distinctTokens q.distinct)
      (if q.distinct then ["DISTINCT"] else []) := by
    cases q.distinct with
    | false => exact ⟨[], rfl, .nil⟩
    | true => exact .single (.single (.ofKeyword .distinct))
  have hall := (((((((((hword.append hdistinct).append (.single (.commas hs₁))).append hs₂).append
    hs₃).append hs₄).append hs₅).append hs₆).append hs₇).append hs₈)
  refine ⟨" ".intercalate ((["SELECT"] ++ if q.distinct then ["DISTINCT"] else []) ++
    [commas items] ++ source ++ filter ++ groups ++ having ++ keys ++ limit ++ offset), ?_, ?_⟩
  · simp [sql?_select, selectText?, Function.comp_def, h₁, h₂, h₃, h₄, h₅, h₆, h₇, h₈]
  · rw [tokens_select, selectTokens]
    simpa [Function.comp_def] using hall.spells

/-- **A tree of a text whose nodes are plain has a text, and it spells the tokens of the tree.** -/
theorem IsWritten.prints {k : Category} {n : Node} (h : n.IsWritten k)
    (hplain : ∀ m : Node, m.StandsIn n → m.HasPlainWords) : n.Prints := by
  -- What stands in a child stands in the node.
  have hchild {m n : Node} (hm : m ∈ n.children) (h : ∀ l : Node, l.StandsIn n → l.HasPlainWords) :
      ∀ l : Node, l.StandsIn m → l.HasPlainWords := fun l hl => h l (.child hm hl)
  induction h with
  | @column i hi => exact ⟨i.text, by rw [sql?], Identifier.spells hi (hplain _ .self)⟩
  | literal => exact ⟨_, by rw [sql?], Literal.spells (hplain _ .self)⟩
  | infixed hc _ _ ihx ihy =>
    have hform := Operator.form_of_isInfix hc
    exact prints_between hform (hplain _ .self) (ihx (hchild (by simp [children]) hplain))
      (ihy (hchild (by simp [children]) hplain))
  | prefixed hc _ ih => exact prints_before hc (ih (hchild (by simp [children]) hplain))
  | test hc _ ih => exact prints_after hc (ih (hchild (by simp [children]) hplain))
  | @function c xs name hc _ ih =>
    exact prints_function hc (hplain _ .self)
      fun x hx => ih x hx (hchild (n := .call c xs) hx hplain)
  | cast hc _ t ih => exact prints_cast hc t (ih (hchild (by simp [children]) hplain))
  | @within c x xs hc _ _ ihx ih =>
    have hlist := hchild (m := .list xs) (by simp [children]) hplain
    exact prints_between (by rw [hc]; rfl) (hplain _ .self)
      (ihx (hchild (by simp [children]) hplain))
      (prints_list fun y hy => ih y hy (hchild (n := .list xs) hy hlist))
  | scalarQuery hc _ ih => exact prints_scalarQuery hc (ih (hchild (by simp [children]) hplain))
  | item _ ih => exact ih hplain
  | @named c x hc _ name ih =>
    have hname : (Node.identifier ⟨[name], none⟩).HasPlainWords :=
      hplain _ (.child (by simp [children]) .self)
    exact prints_between (by rw [hc]; rfl) (hplain _ .self)
      (ih (hchild (by simp [children]) hplain))
      ⟨_, by rw [sql?], Identifier.spells (.inl rfl) hname⟩
  | table t => exact ⟨_, by rw [sql?], by rw [tokens]; exact TableRef.spells (hplain _ .self)⟩
  | join _ kind t ih =>
    have htable : t.HasPlainNames := hplain (.table t) (.child (by simp [children]) .self)
    exact prints_join (ih (hchild (by simp [children]) hplain)) kind htable (by simp)
  | joinOn _ kind t _ ihx ihy =>
    have htable : t.HasPlainNames := hplain (.table t) (.child (by simp [children]) .self)
    refine prints_join (ihx (hchild (by simp [children]) hplain)) kind htable ?_
    rintro _ ⟨⟩
    exact ihy (hchild (by simp [children]) hplain)
  | @query q _ _ _ _ _ _ ihItems ihSource ihFilter ihGroupBy ihHaving ihOrderBy =>
    refine prints_select (hplain _ .self) fun n hn => ?_
    have hbelow := hchild hn hplain
    simp only [children, List.mem_append, Option.mem_toList, List.mem_map] at hn
    obtain ((((hn | hn) | hn) | hn) | hn) | ⟨k, hk, rfl⟩ := hn
    · exact ihItems n hn hbelow
    · exact ihSource n hn hbelow
    · exact ihFilter n hn hbelow
    · exact ihGroupBy n hn hbelow
    · exact ihHaving n hn hbelow
    · exact ihOrderBy k hk hbelow

lemma hasPlainWords_apply {op : Operator} (h : op.form ≠ .function) (ns : List Node) :
    (Node.apply op ns).HasPlainWords := by
  rintro name rfl
  exact absurd rfl h

lemma hasPlainWords_functionCall {name : String} (h : isPlainWord name.toList = true)
    (distinct : Bool) (ns : List Node) : (Parser.functionCall name distinct ns).HasPlainWords := by
  intro f hf
  simp only [Operator.ofFunctionName] at hf
  split at hf
  · cases hf
  · cases hf
    exact isPlainWord_upper h

lemma isPlain_ofNat {l : Literal} (h : ∃ n, l = .ofNat n) : l.isPlain = true := by
  obtain ⟨n, rfl⟩ := h
  rfl

/-- What stands in a tree that the parser builds is such a tree, but for the types of casts and the
lists behind `IN`. -/
lemma IsParsed.of_standsIn {plain : Prop} {k : Category} {n : Node} (h : n.IsParsed plain k) :
    ∀ m : Node, m.StandsIn n →
      (∃ k, m.IsParsed plain k) ∨ (∃ t, m = .typeSpec t) ∨ ∃ ns, m = .list ns := by
  induction h with
  | column h hw => exact forall_standsIn_leaf (.inl ⟨_, .column h hw⟩) rfl
  | literal h => exact forall_standsIn_leaf (.inl ⟨_, .literal h⟩) rfl
  | infixed hop hx hy ihx ihy =>
    refine forall_standsIn (.inl ⟨_, .infixed hop hx hy⟩) ?_
    simpa [children, apply] using ⟨ihx, ihy⟩
  | prefixed hop hn hx ih =>
    refine forall_standsIn (.inl ⟨_, .prefixed hop hn hx⟩) ?_
    simpa [children, apply] using ih
  | test hop hx ih =>
    refine forall_standsIn (.inl ⟨_, .test hop hx⟩) ?_
    simpa [children, apply] using ih
  | function hw d hxs ih => exact forall_standsIn (.inl ⟨_, .function hw d hxs⟩) ih
  | functionOfAll hw d =>
    refine forall_standsIn (.inl ⟨_, .functionOfAll hw d⟩) ?_
    exact List.forall_mem_singleton.2 (forall_standsIn_leaf (.inl ⟨_, .all⟩) rfl)
  | cast hx ht hw ih =>
    refine forall_standsIn (.inl ⟨_, .cast hx ht hw⟩) (List.forall_mem_cons.2 ⟨ih, ?_⟩)
    exact List.forall_mem_singleton.2 (forall_standsIn_leaf (.inr (.inl ⟨_, rfl⟩)) rfl)
  | within hx hne hxs ihx ih =>
    refine forall_standsIn (.inl ⟨_, .within hx hne hxs⟩) (List.forall_mem_cons.2 ⟨ihx, ?_⟩)
    exact List.forall_mem_singleton.2 (forall_standsIn (.inr (.inr ⟨_, rfl⟩)) ih)
  | scalarQuery hq ih =>
    exact forall_standsIn (.inl ⟨_, .scalarQuery hq⟩) (List.forall_mem_singleton.2 ih)
  | item _ ih => exact ih
  | all => exact forall_standsIn_leaf (.inl ⟨_, .all⟩) rfl
  | allOf hw => exact forall_standsIn_leaf (.inl ⟨_, .allOf hw⟩) rfl
  | named hx hw ih =>
    refine forall_standsIn (.inl ⟨_, .named hx hw⟩) (List.forall_mem_cons.2 ⟨ih, ?_⟩)
    exact List.forall_mem_singleton.2
      (forall_standsIn_leaf (.inl ⟨_, Parser.isParsed_column hw⟩) rfl)
  | table hw => exact forall_standsIn_leaf (.inl ⟨_, .table hw⟩) rfl
  | join hx kind hw ih =>
    refine forall_standsIn (.inl ⟨_, .join hx kind hw⟩) (List.forall_mem_cons.2 ⟨ih, ?_⟩)
    exact List.forall_mem_singleton.2 (forall_standsIn_leaf (.inl ⟨_, .table hw⟩) rfl)
  | joinOn hx hkind hw hy ihx ihy =>
    refine forall_standsIn (.inl ⟨_, .joinOn hx hkind hw hy⟩) (List.forall_mem_cons.2 ⟨ihx, ?_⟩)
    exact List.forall_mem_cons.2 ⟨forall_standsIn_leaf (.inl ⟨_, .table hw⟩) rfl,
      List.forall_mem_singleton.2 ihy⟩
  | query hne items source filter groupBy having orderBy limit offset ihItems ihSource ihFilter
      ihGroupBy ihHaving ihOrderBy =>
    refine forall_standsIn (.inl ⟨_, .query hne items source filter groupBy having orderBy limit
      offset⟩) ?_
    simp only [children, List.forall_mem_append, Option.mem_toList, List.forall_mem_map]
    exact ⟨⟨⟨⟨⟨ihItems, ihSource⟩, ihFilter⟩, ihGroupBy⟩, ihHaving⟩, ihOrderBy⟩

/-- Whether a node is an expression or a select item. -/
def isExpression : Node → Bool
  | .identifier _ | .literal _ | .call _ _ => true
  | _ => false

lemma IsParsed.item_of_isExpression {plain : Prop} {k : Category} {n : Node}
    (h : n.IsParsed plain k) (hn : n.isExpression = true) : n.IsParsed plain .item := by
  cases k with
  | expression => exact .item h
  | item => exact h
  | tables => cases h <;> cases hn
  | query =>
    cases h
    cases hn

/-- The expressions that stand in a tree that the parser builds are such trees themselves. -/
lemma IsParsed.item_of_standsIn {plain : Prop} {k : Category} {m n : Node}
    (h : n.IsParsed plain k) (hm : m.StandsIn n) (hexpression : m.isExpression = true) :
    m.IsParsed plain .item := by
  rcases h.of_standsIn m hm with ⟨k, hk⟩ | ⟨t, rfl⟩ | ⟨ns, rfl⟩
  · exact hk.item_of_isExpression hexpression
  · cases hexpression
  · cases hexpression

lemma IsParsed.hasPlainWords_self {plain : Prop} {k : Category} {n : Node} (h : n.IsParsed plain k)
    (hp : plain) : n.HasPlainWords := by
  induction h with
  | column _ hw => exact fun name hname => .inl (hw hp name hname)
  | literal h => exact h.isPlain hp
  | infixed hop => exact hasPlainWords_apply (by simp [Operator.form_of_isInfix hop]) _
  | prefixed hop => exact hasPlainWords_apply (by simp [Operator.form_of_isPrefix hop]) _
  | test hop => exact hasPlainWords_apply (by simp [Operator.form_of_isTest hop]) _
  | function hw d => exact hasPlainWords_functionCall (hw hp) d _
  | functionOfAll hw d => exact hasPlainWords_functionCall (hw hp) d _
  | cast | within | scalarQuery | named => exact hasPlainWords_apply (by decide) _
  | item _ ih => exact ih
  | all => simp [HasPlainWords, Parser.star]
  | allOf hw => exact List.forall_mem_cons.2 ⟨.inl (hw hp), List.forall_mem_singleton.2 (.inr rfl)⟩
  | table hw => exact hw hp
  | join | joinOn => trivial
  | query _ _ _ _ _ _ _ hlimit hoffset =>
    exact ⟨fun l hl => isPlain_ofNat (hlimit l hl), fun l hl => isPlain_ofNat (hoffset l hl)⟩

/-- Every node of a tree of a plain text is plain. -/
theorem IsParsed.hasPlainWords {k : Category} {n : Node} (h : n.IsParsed True k) :
    ∀ m : Node, m.StandsIn n → m.HasPlainWords := by
  intro m hm
  rcases h.of_standsIn m hm with ⟨k, hk⟩ | ⟨t, rfl⟩ | ⟨ns, rfl⟩
  · exact hk.hasPlainWords_self trivial
  · trivial
  · trivial

end Node

end GraphSelect
