import GraphSelect.Proofs.Grammar
import GraphSelect.Proofs.Numerals
import GraphSelect.Proofs.Tokens

/-!
The trees that the parser builds.

They are trees of texts, and more is known of them. Nothing has a type yet but constants, whose type
goes with their value; only functions take `DISTINCT`; a minus before a number belongs to it; a star
stands only where the grammar has one. If every name of the text is a word, and every constant a
whole number, a text, `TRUE`, `FALSE` or `NULL`, so it is in the tree. The unfinished constructs
that the parser remembers are parts of such trees, and every token keeps them so.
-/

namespace GraphSelect

/-! ### Tokens -/

namespace Token

/-- Whether a token is one of a plain text: no quoted name, no word of the language as a name, and
no number but a whole one. -/
def isPlain (t : Token) : Bool :=
  match t.terminal with
  | .name => isPlainWord t.text
  | .quotedName | .decimal | .approximate => false
  | _ => true

/-- What the terminal of a number says of its text. -/
def IsNumeral (t : Token) : Prop :=
  match t.terminal with
  | .integer => t.text ≠ [] ∧ ∀ c ∈ t.text, Text.isDigit c = true
  | .decimal => t.text.contains '.' = true
  | _ => True

lemma isNumeral_of_first? {expected : List Terminal} {cs : List Char} {t : Token}
    (h : first? expected cs = some t) : t.IsNumeral := by
  obtain ⟨terminal, text⟩ := t
  rcases first?_eq_some h with h | ⟨k, hk⟩
  · cases terminal with
    | integer =>
      exact (Terminal.digits_of_match? h).2
    | decimal =>
      obtain ⟨-, -, hpoint⟩ := Terminal.mantissa_of_match? h
      exact List.contains_iff_mem.2 hpoint
    | _ => trivial
  · obtain rfl : terminal = .keyword k := hk
    trivial

end Token

/-! ### Constants -/

/-- The type of a constant of a text. -/
def Value.spelledType : Value → TypeName
  | .int n => if Literal.isShort n.natAbs then .integer else .bigint
  | .decimal _ => .decimal
  | .double _ => .double
  | .chars _ => .char
  | .bool _ => .boolean
  | .null => .null
  | _ => .any

namespace Literal

/-- Whether a constant is a whole number, a text, a truth value or `NULL`. -/
def isPlain (l : Literal) : Bool :=
  match l.value with
  | .int _ | .chars _ | .bool _ | .null => true
  | _ => false

/-- A whole number without a sign. -/
def ofNat (n : Nat) : Literal := ⟨.int n, if isShort n then .integer else .bigint⟩

/-- The constants of texts, plain ones if the text is plain. -/
structure IsParsed (plain : Prop) (l : Literal) : Prop where
  spelled : l.IsSpelled
  type_eq : l.type = l.value.spelledType
  isPlain : plain → l.isPlain = true

lemma ofExact_of_digits {cs : List Char} (hcs : ∀ c ∈ cs, Text.isDigit c = true) (hne : cs ≠ []) :
    ofExact (String.ofList cs) = ofNat (Text.natOfDigits cs) := by
  have hpoint : '.' ∉ cs := fun h => absurd (hcs '.' h) (by decide)
  simp [ofExact, ofNat, hpoint, Text.int?_of_digits hcs hne]

variable {plain : Prop}

lemma isParsed_of_literal? {t : Token} {l : Literal} (ht : t.IsNumeral)
    (hplain : plain → t.isPlain = true) (h : Parser.literal? t = some l) : l.IsParsed plain := by
  obtain ⟨terminal, text⟩ := t
  have hspelled := fun h => Literal.IsSpelled.exact h
  cases terminal with
  | integer =>
    cases h
    rw [ofExact_of_digits ht.2 ht.1]
    refine ⟨ofExact_of_digits ht.2 ht.1 ▸ .exact _, ?_, fun _ => rfl⟩
    simp [ofNat, Value.spelledType]
  | decimal =>
    cases h
    have hpoint : '.' ∈ text := by simpa [Token.IsNumeral] using ht
    refine ⟨.exact _, ?_, fun h => by simpa [Token.isPlain] using hplain h⟩
    simp [ofExact, hpoint, Value.spelledType]
  | approximate =>
    cases h
    exact ⟨.approximate _, rfl, fun h => by simpa [Token.isPlain] using hplain h⟩
  | string =>
    cases h
    exact ⟨.chars _, rfl, fun _ => rfl⟩
  | keyword k =>
    cases k <;> cases h
    · exact ⟨.null, rfl, fun _ => rfl⟩
    · exact ⟨.bool _, rfl, fun _ => rfl⟩
    · exact ⟨.bool _, rfl, fun _ => rfl⟩
  | _ => cases h

lemma spelledType_negate (v : Value) : v.negate.spelledType = v.spelledType := by
  rcases v with (_ | _ | n | _ | _ | _ | _) | _
  case scalar.int => simp [Value.negate, Scalar.negate, Value.spelledType]
  all_goals rfl

lemma isPlain_negate (l : Literal) : l.negate.isPlain = l.isPlain := by
  obtain ⟨(_ | _ | n | _ | _ | _ | _) | _, type⟩ := l <;> rfl

/-- The negation of a number is a constant of a text too. -/
lemma IsParsed.negate {l : Literal} (h : l.IsParsed plain) (hn : l.type.isNumeric = true) :
    l.negate.IsParsed plain where
  spelled := .negate h.spelled hn
  type_eq := h.type_eq.trans (spelledType_negate l.value).symm
  isPlain hp := (isPlain_negate l).trans (h.isPlain hp)

end Literal

/-- The targets of casts: sizes are whole numbers, and no scale stands without a precision. -/
inductive TypeSpec.IsSpelled : TypeSpec → Prop
  | bare (t : TypeName) : IsSpelled ⟨t, none, none⟩
  | sized (t : TypeName) (p : Nat) : IsSpelled ⟨t, some p, none⟩
  | scaled (t : TypeName) (p s : Nat) : IsSpelled ⟨t, some p, some s⟩

lemma TypeSpec.IsSpelled.of_sizes {p : Int} {s : Option Int} (hp : ∃ n : Nat, p = n)
    (hs : ∀ k ∈ s, ∃ n : Nat, k = n) (t : TypeName) : IsSpelled ⟨t, some p, s⟩ := by
  obtain ⟨n, rfl⟩ := hp
  cases s with
  | none => exact .sized t n
  | some s =>
    obtain ⟨k, rfl⟩ := hs s rfl
    exact .scaled t n k

/-! ### Trees -/

/-- Whether an expression is a number, to which a minus before it would belong. -/
def Node.isNumber : Node → Bool
  | .literal l => l.type.isNumeric
  | _ => false

/-- The names of a table are words. -/
def TableRef.HasPlainNames (t : TableRef) : Prop :=
  isPlainWord t.name.toList = true ∧ ∀ a ∈ t.asName, isPlainWord a.toList = true

lemma TableRef.HasPlainNames.alias {t : TableRef} (h : t.HasPlainNames) {name : String}
    (hname : isPlainWord name.toList = true) : HasPlainNames { t with asName := some name } :=
  ⟨h.1, by rintro _ ⟨⟩; exact hname⟩

open GraphSelect.Parser (star column functionCall) in
/-- The trees that the parser builds, of plain texts if `plain`. -/
inductive Node.IsParsed (plain : Prop) : Category → Node → Prop
  | column {names : List String} (h : names.length = 1 ∨ names.length = 2)
      (hw : plain → ∀ name ∈ names, isPlainWord name.toList = true) :
      IsParsed plain .expression (column names)
  | literal {l : Literal} (h : l.IsParsed plain) : IsParsed plain .expression (.literal l)
  | infixed {op : Operator} {x y : Node} (hop : op.isInfix = true)
      (hx : IsParsed plain .expression x) (hy : IsParsed plain .expression y) :
      IsParsed plain .expression (.apply op [x, y])
  | prefixed {op : Operator} {x : Node} (hop : op.isPrefix = true)
      (hn : op = .negate → x.isNumber = false) (hx : IsParsed plain .expression x) :
      IsParsed plain .expression (.apply op [x])
  | test {op : Operator} {x : Node} (hop : op.isTest = true) (hx : IsParsed plain .expression x) :
      IsParsed plain .expression (.apply op [x])
  | function {name : String} (hw : plain → isPlainWord name.toList = true) (distinct : Bool)
      {xs : List Node} (hxs : ∀ x ∈ xs, IsParsed plain .expression x) :
      IsParsed plain .expression (functionCall name distinct xs)
  | functionOfAll {name : String} (hw : plain → isPlainWord name.toList = true) (distinct : Bool) :
      IsParsed plain .expression (functionCall name distinct [star])
  | cast {x : Node} (hx : IsParsed plain .expression x) {t : TypeSpec} (ht : t.IsSpelled)
      (hw : plain → t.type ≠ .null) : IsParsed plain .expression (.apply .cast [x, .typeSpec t])
  | within {x : Node} {xs : List Node} (hx : IsParsed plain .expression x) (hne : xs ≠ [])
      (hxs : ∀ x ∈ xs, IsParsed plain .expression x) :
      IsParsed plain .expression (.apply .within [x, .list xs])
  | scalarQuery {q : Select} (hq : IsParsed plain .query (.select q)) :
      IsParsed plain .expression (.apply .scalarQuery [.select q])
  | item {x : Node} (hx : IsParsed plain .expression x) : IsParsed plain .item x
  | all : IsParsed plain .item star
  | allOf {name : String} (hw : plain → isPlainWord name.toList = true) :
      IsParsed plain .item (column [name, "*"])
  | named {x : Node} (hx : IsParsed plain .expression x) {name : String}
      (hw : plain → isPlainWord name.toList = true) : IsParsed plain .item (.named x name)
  | table {t : TableRef} (hw : plain → t.HasPlainNames) : IsParsed plain .tables (.table t)
  | join {x : Node} (hx : IsParsed plain .tables x) (kind : JoinKind) {t : TableRef}
      (hw : plain → t.HasPlainNames) : IsParsed plain .tables (.join x kind (.table t) none)
  | joinOn {x y : Node} (hx : IsParsed plain .tables x) {kind : JoinKind} (hkind : kind ≠ .comma)
      {t : TableRef} (hw : plain → t.HasPlainNames) (hy : IsParsed plain .expression y) :
      IsParsed plain .tables (.join x kind (.table t) (some y))
  | query {q : Select} (hne : q.items ≠ []) (items : ∀ x ∈ q.items, IsParsed plain .item x)
      (source : ∀ x ∈ q.source, IsParsed plain .tables x)
      (filter : ∀ x ∈ q.filter, IsParsed plain .expression x)
      (groupBy : ∀ x ∈ q.groupBy, IsParsed plain .expression x)
      (having : ∀ x ∈ q.having, IsParsed plain .expression x)
      (orderBy : ∀ k ∈ q.orderBy, IsParsed plain .expression k.expression)
      (limit : ∀ l ∈ q.limit, ∃ n, l = .ofNat n) (offset : ∀ l ∈ q.offset, ∃ n, l = .ofNat n) :
      IsParsed plain .query (.select q)

namespace Node

variable {plain : Prop} {n : Node}

/-- What the parser builds is a tree of a text. -/
theorem IsParsed.isWritten {k : Category} (h : n.IsParsed plain k) : n.IsWritten k := by
  induction h with
  | column h => exact .column h
  | literal h => exact .literal h.spelled
  | infixed hop _ _ ihx ihy => exact .infixed hop ihx ihy
  | prefixed hop _ _ ih => exact .prefixed hop ih
  | test hop _ ih => exact .test hop ih
  | function _ _ _ ih => exact .function _ rfl ih
  | functionOfAll =>
    exact .function _ rfl (List.forall_mem_singleton.2 (.column (.inl rfl)))
  | cast _ _ _ ih => exact .cast rfl ih _
  | within _ _ _ ihx ih => exact .within rfl ihx ih
  | scalarQuery _ ih => exact .scalarQuery rfl ih
  | item _ ih => exact .item ih
  | all => exact .item (.column (.inl rfl))
  | allOf => exact .item (.column (.inr rfl))
  | named _ _ ih => exact .named rfl ih _
  | table => exact .table _
  | join _ kind _ ih => exact .join ih kind _
  | joinOn _ _ _ _ ihx ihy => exact .joinOn ihx _ _ ihy
  | query _ _ _ _ _ _ _ _ _ ihItems ihSource ihFilter ihGroupBy ihHaving ihOrderBy =>
    exact .query ihItems ihSource ihFilter ihGroupBy ihHaving ihOrderBy

end Node

/-- A select of which some clauses have been read. -/
structure Select.IsBegun (plain : Prop) (q : Select) : Prop where
  items : ∀ x ∈ q.items, x.IsParsed plain .item
  source : ∀ x ∈ q.source, x.IsParsed plain .tables
  filter : ∀ x ∈ q.filter, x.IsParsed plain .expression
  groupBy : ∀ x ∈ q.groupBy, x.IsParsed plain .expression
  having : ∀ x ∈ q.having, x.IsParsed plain .expression
  orderBy : ∀ k ∈ q.orderBy, k.expression.IsParsed plain .expression
  limit : ∀ l ∈ q.limit, ∃ n, l = .ofNat n
  offset : ∀ l ∈ q.offset, ∃ n, l = .ofNat n

namespace Select

variable {plain : Prop} {q : Select} {x : Node}

lemma isBegun_empty : empty.IsBegun plain := by
  constructor <;> simp [empty]

lemma IsBegun.addItem (h : q.IsBegun plain) (hx : x.IsParsed plain .item) :
    (Parser.addItem q x).IsBegun plain :=
  { h with items := List.forall_mem_append.2 ⟨h.items, List.forall_mem_singleton.2 hx⟩ }

lemma IsBegun.addKey (h : q.IsBegun plain) (hx : x.IsParsed plain .expression)
    (descending : Bool) : (Parser.addKey q x descending).IsBegun plain :=
  { h with orderBy := List.forall_mem_append.2 ⟨h.orderBy, List.forall_mem_singleton.2 hx⟩ }

lemma IsBegun.withSource (h : q.IsBegun plain) (hx : x.IsParsed plain .tables) :
    IsBegun plain { q with source := some x } :=
  { h with source := by rintro _ ⟨⟩; exact hx }

lemma IsBegun.withFilter (h : q.IsBegun plain) (hx : x.IsParsed plain .expression) :
    IsBegun plain { q with filter := some x } :=
  { h with filter := by rintro _ ⟨⟩; exact hx }

lemma IsBegun.addGroup (h : q.IsBegun plain) (hx : x.IsParsed plain .expression) :
    IsBegun plain { q with groupBy := q.groupBy ++ [x] } :=
  { h with groupBy := List.forall_mem_append.2 ⟨h.groupBy, List.forall_mem_singleton.2 hx⟩ }

lemma IsBegun.withHaving (h : q.IsBegun plain) (hx : x.IsParsed plain .expression) :
    IsBegun plain { q with having := some x } :=
  { h with having := by rintro _ ⟨⟩; exact hx }

lemma IsBegun.withLimit (h : q.IsBegun plain) {l : Literal} (hl : ∃ n, l = .ofNat n) :
    IsBegun plain { q with limit := some l } :=
  { h with limit := by rintro _ ⟨⟩; exact hl }

lemma IsBegun.withOffset (h : q.IsBegun plain) {l : Literal} (hl : ∃ n, l = .ofNat n) :
    IsBegun plain { q with offset := some l } :=
  { h with offset := by rintro _ ⟨⟩; exact hl }

lemma IsBegun.isParsed (h : q.IsBegun plain) (hne : q.items ≠ []) :
    (Node.select q).IsParsed plain .query :=
  .query hne h.items h.source h.filter h.groupBy h.having h.orderBy h.limit h.offset

end Select

namespace Parser

open Node (IsParsed)

variable {plain : Prop}

/-! ### Unfinished constructs -/

variable (plain) in
def Frame.IsSound : Frame → Prop
  | .infixed op left => op.isInfix = true ∧ IsParsed plain .expression left
  | .prefixed op => op.isPrefix = true
  | .bracket | .castOperand => True
  | .arguments name _ read =>
    (plain → isPlainWord name.toList = true) ∧ ∀ x ∈ read, IsParsed plain .expression x
  | .castTarget x => IsParsed plain .expression x
  | .members x read =>
    IsParsed plain .expression x ∧ ∀ y ∈ read, IsParsed plain .expression y
  | .joinOn left kind right =>
    IsParsed plain .tables left ∧ kind ≠ .comma ∧ (plain → right.HasPlainNames)
  | .query q clause => q.IsBegun plain ∧ (clause ≠ .items → q.items ≠ [])

variable (plain) in
def IsSoundStack (fs : List Frame) : Prop := ∀ f ∈ fs, f.IsSound plain

/-- Whether the innermost construct, if it is a select, has an item. -/
def HasItems (fs : List Frame) : Prop := ∀ q c rest, fs = .query q c :: rest → q.items ≠ []

variable (plain) in
/-- A table that waits to be joined, and the one that it is joined with. -/
def IsSoundJoining (joining : Option Joining) : Prop :=
  ∀ j ∈ joining, IsParsed plain .tables j.left

variable (plain) in
def Phase.IsSound : Phase → Prop
  | .value x _ | .is x | .isNot x | .within x | .itemAlias x => IsParsed plain .expression x
  | .qualifier name _ => plain → isPlainWord name.toList = true
  | .typeNamed name | .precision name => plain → TypeName.lookup name ≠ some .null
  | .precisionRead name p | .scale name p =>
    (plain → TypeName.lookup name ≠ some .null) ∧ ∃ n : Nat, p = n
  | .scaleRead name p s =>
    (plain → TypeName.lookup name ≠ some .null) ∧ (∃ n : Nat, p = n) ∧ ∃ n : Nat, s = n
  | .typeSized name p s =>
    (plain → TypeName.lookup name ≠ some .null) ∧ (∃ n : Nat, p = n) ∧ ∀ k ∈ s, ∃ n : Nat, k = n
  | .tableName joining => IsSoundJoining plain joining
  | .tableRead joining t | .tableAlias joining t =>
    IsSoundJoining plain joining ∧ (plain → t.HasPlainNames)
  | .joinWord left _ _ => IsParsed plain .tables left
  | _ => True

variable (plain) in
/-- What the parser remembers are parts of trees that it builds. Only between a star in the brackets
of a function and the closing bracket is there an argument that is no expression. -/
def State.IsSound (s : State) : Prop :=
  match s.phase with
  | .starArgument => ∃ name d rest, s.stack = .arguments name d [star] :: rest ∧
      (plain → isPlainWord name.toList = true) ∧ IsSoundStack plain rest
  | .ended _ | .count _ => HasItems s.stack ∧ IsSoundStack plain s.stack
  | p => p.IsSound plain ∧ IsSoundStack plain s.stack

variable (plain) in
/-- A move to such a state, if it is not refused. -/
def Move.IsSound (m : Move) : Prop := ∀ s, m = .ok s → s.IsSound plain

section

variable {x : Node} {fs : List Frame} {f : Frame} {q : Select} {t : Token}

lemma isSoundStack_cons :
    IsSoundStack plain (f :: fs) ↔ f.IsSound plain ∧ IsSoundStack plain fs :=
  List.forall_mem_cons

lemma IsSoundStack.head (h : IsSoundStack plain (f :: fs)) : f.IsSound plain :=
  (isSoundStack_cons.1 h).1

lemma IsSoundStack.tail (h : IsSoundStack plain (f :: fs)) : IsSoundStack plain fs :=
  (isSoundStack_cons.1 h).2

lemma isSound_move {s : State} (h : s.IsSound plain) : Move.IsSound plain (.ok s) := by
  rintro _ ⟨⟩
  exact h

lemma isSound_refused : Move.IsSound plain refused := nofun

lemma isSound_value {tail : Tail} (hx : IsParsed plain .expression x)
    (hfs : IsSoundStack plain fs) : Move.IsSound plain (go (.value x tail) fs) :=
  isSound_move ⟨hx, hfs⟩

lemma isSound_operand {o : Opening} (hf : f.IsSound plain) (hfs : IsSoundStack plain fs) :
    Move.IsSound plain (go (.operand o) (f :: fs)) :=
  isSound_move ⟨trivial, isSoundStack_cons.2 ⟨hf, hfs⟩⟩

lemma isSound_ended {e : Ending} {c : Clause} (hq : q.IsBegun plain) (hne : q.items ≠ [])
    (hfs : IsSoundStack plain fs) :
    Move.IsSound plain (go (.ended e) (.query q c :: fs)) := by
  refine isSound_move ⟨?_, isSoundStack_cons.2 ⟨⟨hq, fun _ => hne⟩, hfs⟩⟩
  rintro _ _ _ ⟨⟩
  exact hne

lemma addItem_ne : (addItem q x).items ≠ [] := by simp [addItem]

lemma isSound_addItem {e : Ending} {c : Clause} (hf : (Frame.query q c).IsSound plain)
    (hx : IsParsed plain .item x) (hfs : IsSoundStack plain fs) :
    Move.IsSound plain (go (.ended e) (.query (addItem q x) c :: fs)) :=
  isSound_ended (hf.1.addItem hx) addItem_ne hfs

/-! ### Operators -/

lemma isParsed_applyPrefix {op : Operator} (hop : op.isPrefix = true)
    (hx : IsParsed plain .expression x) : IsParsed plain .expression (applyPrefix op x) := by
  unfold applyPrefix
  split
  · next l =>
    split
    · next hn =>
      cases hx with
      | literal h => exact .literal (h.negate hn)
    · next hn => exact .prefixed rfl (fun _ => by simpa [Node.isNumber] using hn) hx
  · next hother =>
    refine .prefixed hop (fun hop => ?_) hx
    cases x with
    | literal l => exact absurd rfl (hother l hop)
    | _ => rfl

lemma isSound_reduce (level : Nat) (hx : IsParsed plain .expression x)
    (hfs : IsSoundStack plain fs) :
    IsParsed plain .expression (reduce level x fs).1 ∧
      IsSoundStack plain (reduce level x fs).2 := by
  induction fs generalizing x with
  | nil => exact ⟨hx, hfs⟩
  | cons f fs ih =>
    obtain ⟨hf, hrest⟩ := isSoundStack_cons.1 hfs
    unfold reduce
    split
    · next heq =>
      obtain ⟨rfl, rfl⟩ := List.cons.inj heq
      split
      · exact ih (.infixed hf.1 hf.2 hx) hrest
      · exact ⟨hx, hfs⟩
    · next heq =>
      obtain ⟨rfl, rfl⟩ := List.cons.inj heq
      split
      · exact ih (isParsed_applyPrefix hf hx) hrest
      · exact ⟨hx, hfs⟩
    · exact ⟨hx, hfs⟩

lemma isSound_comparand {tail : Tail} {x' : Node} {fs' : List Frame}
    (hx : IsParsed plain .expression x) (hfs : IsSoundStack plain fs)
    (h : comparand? x tail fs = some (x', fs')) :
    IsParsed plain .expression x' ∧ IsSoundStack plain fs' := by
  have hreduce := isSound_reduce 5 hx hfs
  unfold comparand? at h
  split at h
  · simp at h
  · split at h
    · next heq =>
      rw [heq] at hreduce
      split at h
      · simp at h
      · cases h
        exact hreduce
    · rw [Option.some.inj h] at hreduce
      exact hreduce

lemma isSound_infixStep {op : Operator} (hop : op.isInfix = true) {tail : Tail}
    (hx : IsParsed plain .expression x) (hfs : IsSoundStack plain fs) :
    (infixStep op x tail fs).IsSound plain := by
  have hgo {level : Nat} {o : Opening} : Move.IsSound plain
      (go (.operand o) (.infixed op (reduce level x fs).1 :: (reduce level x fs).2)) :=
    isSound_operand ⟨hop, (isSound_reduce level hx hfs).1⟩ (isSound_reduce level hx hfs).2
  unfold infixStep
  split
  · split
    · next heq =>
      obtain ⟨hx, hrest⟩ := isSound_comparand hx hfs heq
      exact isSound_operand ⟨hop, hx⟩ hrest
    · exact isSound_refused
  · split
    · exact hgo
    · split
      · exact isSound_refused
      · exact hgo

/-! ### Operands and clauses -/

lemma isPlainWord_of_name? {name : String} (ht : plain → t.isPlain = true)
    (h : name? t = some name) : plain → isPlainWord name.toList = true := by
  intro hp
  obtain ⟨terminal, text⟩ := t
  cases terminal with
  | name =>
    cases h
    simpa [Token.isPlain] using ht hp
  | quotedName => simpa [Token.isPlain] using ht hp
  | _ => cases h

lemma isParsed_column {name : String} (h : plain → isPlainWord name.toList = true) :
    IsParsed plain .expression (column [name]) :=
  .column (.inl rfl) fun hp => List.forall_mem_singleton.2 (h hp)

lemma isSound_operandStep (opening : Opening) (ht : t.IsNumeral) (hplain : plain → t.isPlain = true)
    (hfs : IsSoundStack plain fs) : (operandStep opening fs t).IsSound plain := by
  unfold operandStep
  split
  · exact isSound_operand ⟨Select.isBegun_empty, by simp⟩ hfs
  · exact isSound_operand ⟨{ hfs.head.1 with }, hfs.head.2⟩ hfs.tail
  · exact isSound_operand hfs.head hfs.tail
  · exact isSound_addItem hfs.head .all hfs.tail
  · exact isSound_addItem hfs.head .all hfs.tail
  · exact isSound_addItem hfs.head .all hfs.tail
  · exact isSound_move ⟨_, _, _, rfl, hfs.head.1, hfs.tail⟩
  · exact isSound_move ⟨_, _, _, rfl, hfs.head.1, hfs.tail⟩
  · exact isSound_value (.function hfs.head.1 _ hfs.head.2) hfs.tail
  · exact isSound_value (.function hfs.head.1 _ hfs.head.2) hfs.tail
  · exact isSound_refused
  · exact isSound_operand rfl hfs
  · exact isSound_operand rfl hfs
  · exact isSound_operand trivial hfs
  · exact isSound_move ⟨trivial, hfs⟩
  · split
    · next hn => exact isSound_value (isParsed_column (isPlainWord_of_name? hplain hn)) hfs
    · next hl => exact isSound_value (.literal (Literal.isParsed_of_literal? ht hplain hl)) hfs
    · exact isSound_refused

variable (plain) in
/-- A select with a complete last entry, and the constructs around it. -/
structure Settled.IsSound (s : Settled) : Prop where
  select : s.select.IsBegun plain
  items_ne : s.select.items ≠ []
  rest : IsSoundStack plain s.rest

lemma isSound_settle? {s : Settled} (hx : IsParsed plain .expression x)
    (hfs : IsSoundStack plain fs) (h : settle? x fs = some s) : s.IsSound plain := by
  unfold settle? at h
  split at h
  · cases h
    obtain ⟨hq, hne⟩ := hfs.tail.head
    obtain ⟨hleft, hkind, hright⟩ := hfs.head
    exact ⟨hq.withSource (.joinOn hleft hkind hright hx), hne (by simp), hfs.tail.tail⟩
  · cases h
    exact ⟨hfs.head.1.addItem (.item hx), addItem_ne, hfs.tail⟩
  · cases h
    obtain ⟨hq, hne⟩ := hfs.head
    exact ⟨hq.withFilter hx, hne (by simp), hfs.tail⟩
  · cases h
    obtain ⟨hq, hne⟩ := hfs.head
    exact ⟨hq.addGroup hx, hne (by simp), hfs.tail⟩
  · cases h
    obtain ⟨hq, hne⟩ := hfs.head
    exact ⟨hq.withHaving hx, hne (by simp), hfs.tail⟩
  · cases h
    obtain ⟨hq, hne⟩ := hfs.head
    exact ⟨hq.addKey hx false, hne (by simp), hfs.tail⟩
  · simp at h

lemma isParsed_joined {joining : Option Joining} {table : TableRef}
    (h : IsSoundJoining plain joining) (hw : plain → table.HasPlainNames) :
    IsParsed plain .tables (joined joining table) := by
  cases joining with
  | none => exact .table hw
  | some j => exact .join (h j rfl) j.kind hw

lemma isSound_settled? {s : State} {settled : Settled} (hs : s.IsSound plain)
    (h : s.settled? = some settled) : settled.IsSound plain := by
  unfold State.settled? at h
  split at h
  · obtain ⟨hx, hfs⟩ := isSound_reduce 0 hs.1 hs.2
    exact isSound_settle? hx hfs h
  · cases h
    obtain ⟨⟨hjoining, hw⟩, hfs⟩ := hs
    obtain ⟨hq, hne⟩ := hfs.head
    exact ⟨hq.withSource (isParsed_joined hjoining hw), hne (by simp), hfs.tail⟩
  · cases h
    exact ⟨hs.2.head.1, hs.1 _ _ _ rfl, hs.2.tail⟩
  · simp at h

lemma isSound_clauseWord? {k : Keyword} {clause : Clause} {p : Phase} {s : Settled}
    (h : clauseWord? k = some (clause, p)) (hs : s.IsSound plain) :
    Move.IsSound plain (go p (.query s.select clause :: s.rest)) := by
  have hstack : IsSoundStack plain (.query s.select clause :: s.rest) :=
    isSoundStack_cons.2 ⟨⟨hs.select, fun _ => hs.items_ne⟩, hs.rest⟩
  have hitems : HasItems (.query s.select clause :: s.rest) := by
    rintro _ _ _ ⟨⟩
    exact hs.items_ne
  cases k <;> cases h
  case limit | offset => exact isSound_move ⟨hitems, hstack⟩
  case «from» => exact isSound_move ⟨nofun, hstack⟩
  all_goals exact isSound_move ⟨trivial, hstack⟩

lemma isSound_settledStep {s : Settled} (hs : s.IsSound plain) :
    (settledStep s t).IsSound plain := by
  have hquery : (Frame.query s.select s.clause).IsSound plain := ⟨hs.select, fun _ => hs.items_ne⟩
  have hsame := isSoundStack_cons.2 ⟨hquery, hs.rest⟩
  have hsource {n : Node} (h : s.select.source = some n) : IsParsed plain .tables n :=
    hs.select.source n h
  have hjoining {n : Node} {kind : JoinKind} (h : s.select.source = some n) :
      IsSoundJoining plain (some ⟨n, kind⟩) := by
    rintro _ ⟨⟩
    exact hsource h
  unfold settledStep
  dsimp only
  split
  · exact isSound_operand hquery hs.rest
  · exact isSound_operand hquery hs.rest
  · exact isSound_operand hquery hs.rest
  · next h => exact isSound_move ⟨hjoining h, hsame⟩
  · next h =>
    have hrest := hs.rest
    rw [h] at hrest
    exact isSound_value (.scalarQuery (hs.select.isParsed hs.items_ne)) hrest.tail
  · next h => exact isSound_move ⟨hjoining h, hsame⟩
  · split
    · next h =>
      split
      · exact isSound_move ⟨hsource h, hsame⟩
      · exact isSound_refused
    · next h _ =>
      split
      · exact isSound_clauseWord? h hs
      · exact isSound_refused
    · exact isSound_refused
  · exact isSound_refused

lemma isSound_expressionEnd (hplain : plain → t.isPlain = true)
    (hx : IsParsed plain .expression x) (hfs : IsSoundStack plain fs) :
    (expressionEnd x fs t).IsSound plain := by
  obtain ⟨hx, hfs⟩ := isSound_reduce 0 hx hfs
  have hread {xs : List Node} (hxs : ∀ y ∈ xs, IsParsed plain .expression y) :
      ∀ y ∈ xs ++ [(reduce 0 x fs).1], IsParsed plain .expression y :=
    List.forall_mem_append.2 ⟨hxs, List.forall_mem_singleton.2 hx⟩
  unfold expressionEnd
  revert hx hfs hread
  generalize reduce 0 x fs = r
  intro hx hfs hread
  split
  · exact isSound_value hx hfs.tail
  · exact isSound_operand ⟨hfs.head.1, hread hfs.head.2⟩ hfs.tail
  · exact isSound_value (.function hfs.head.1 _ (hread hfs.head.2)) hfs.tail
  · exact isSound_move ⟨trivial, isSoundStack_cons.2 ⟨hx, hfs.tail⟩⟩
  · exact isSound_operand ⟨hfs.head.1, hread hfs.head.2⟩ hfs.tail
  · exact isSound_value (.within hfs.head.1 (by simp) (hread hfs.head.2)) hfs.tail
  · exact isSound_move ⟨hx, hfs⟩
  · next hn _ =>
    exact isSound_addItem hfs.head (.named hx (isPlainWord_of_name? hplain hn)) hfs.tail
  · obtain ⟨hq, hne⟩ := hfs.head
    exact isSound_ended (hq.addKey hx false) (hne (by simp)) hfs.tail
  · obtain ⟨hq, hne⟩ := hfs.head
    exact isSound_ended (hq.addKey hx true) (hne (by simp)) hfs.tail
  · split
    · next h => exact isSound_settledStep (isSound_settle? hx hfs h)
    · exact isSound_refused

lemma isInfix_of_infixed? {terminal : Terminal} {op : Operator} (h : infixed? terminal = some op) :
    op.isInfix = true := by
  unfold infixed? at h
  split at h <;> cases h <;> rfl

lemma isSound_valueStep {tail : Tail} (hplain : plain → t.isPlain = true)
    (hx : IsParsed plain .expression x) (hfs : IsSoundStack plain fs) :
    (valueStep x tail fs t).IsSound plain := by
  have hname {n : String} {type : Option TypeName}
      (h : IsParsed plain .expression (.identifier ⟨[n], type⟩)) :
      plain → isPlainWord n.toList = true := by
    cases h with
    | column _ hw => exact fun hp => hw hp n List.mem_cons_self
  unfold valueStep
  split
  · next h => exact isSound_infixStep (isInfix_of_infixed? h) hx hfs
  · split
    · next h => exact isSound_move (isSound_comparand hx hfs h)
    · exact isSound_refused
  · split
    · next h => exact isSound_move (isSound_comparand hx hfs h)
    · exact isSound_refused
  · exact isSound_move ⟨hname hx, hfs⟩
  · exact isSound_operand ⟨hname hx, nofun⟩ hfs
  · exact isSound_expressionEnd hplain hx hfs

lemma isSound_tableStep {joining : Option Joining} {table : TableRef}
    (hplain : plain → t.isPlain = true) (hj : IsSoundJoining plain joining)
    (hw : plain → table.HasPlainNames) (hfs : IsSoundStack plain fs) :
    (tableStep joining table fs t).IsSound plain := by
  unfold tableStep
  split
  · exact isSound_move ⟨⟨hj, hw⟩, hfs⟩
  · next hn _ _ =>
    exact isSound_move ⟨⟨hj, fun hp => (hw hp).alias (isPlainWord_of_name? hplain hn hp)⟩, hfs⟩
  · split
    · exact isSound_refused
    · next hkind => exact isSound_operand ⟨hj _ rfl, hkind, hw⟩ hfs
  · split
    · next h =>
      exact isSound_settledStep
        (isSound_settled? (s := ⟨.tableRead _ table, _⟩) ⟨⟨hj, hw⟩, hfs⟩ h)
    · exact isSound_refused

lemma isSound_castEnd {name : String} {p s : Option Int}
    (hname : plain → TypeName.lookup name ≠ some .null)
    (hsizes : ∀ type, TypeSpec.IsSpelled ⟨type, p, s⟩) (hfs : IsSoundStack plain fs) :
    (castEnd name p s fs).IsSound plain := by
  unfold castEnd
  split
  · exact nofun
  · next hlookup =>
    refine isSound_value (.cast hfs.head (hsizes _) fun hp => ?_) hfs.tail
    rintro rfl
    exact hname hp hlookup
  · exact isSound_refused

/-! ### Tokens and texts -/

/-- `NULL` is the only type whose name is no word. -/
lemma lookup_ne_null {name : String} (h : isPlainWord name.toList = true) :
    TypeName.lookup name ≠ some .null := by
  intro hnull
  unfold TypeName.lookup at hnull
  rcases Option.or_eq_some_iff.1 hnull with hspelling | ⟨-, hname⟩
  · have hnone : ∀ p ∈ TypeName.spellings, p.2 ≠ .null := by decide
    obtain ⟨_, _, hall, -⟩ := List.lookup_eq_some_iff.1 hspelling
    exact hnone _ (hall ▸ List.mem_append_right _ List.mem_cons_self) rfl
  · have hcapitals : TypeName.null.name = Text.upper name := by
      simpa using List.find?_some hname
    exact upper_ne_keyword h (w := "NULL".toList) rfl (congrArg String.toList hcapitals.symm)

lemma exists_ofNat (ht : t.IsNumeral) (hterminal : t.terminal = .integer) :
    ∃ n, Literal.ofExact (String.ofList t.text) = .ofNat n := by
  rw [Token.IsNumeral, hterminal] at ht
  exact ⟨_, Literal.ofExact_of_digits ht.2 ht.1⟩

/-- Every token keeps what the parser remembers parts of trees that it builds. -/
theorem isSound_step {s s' : State} (hs : s.IsSound plain) (ht : t.IsNumeral)
    (hplain : plain → t.isPlain = true) (h : step s t = .ok s') : s'.IsSound plain := by
  obtain ⟨p, fs⟩ := s
  refine (?_ : Move.IsSound plain (step ⟨p, fs⟩ t)) s' h
  unfold step
  dsimp only
  split
  · exact isSound_operand ⟨Select.isBegun_empty, by simp⟩ hs.2
  · exact isSound_operandStep _ ht hplain hs.2
  · exact isSound_valueStep hplain hs.1 hs.2
  · exact isSound_addItem hs.2.head (.allOf hs.1) hs.2.tail
  · split
    · next hn =>
      refine isSound_value (.column (.inr rfl) fun hp => ?_) hs.2
      have hword := isPlainWord_of_name? hplain hn hp
      exact List.forall_mem_cons.2 ⟨hs.1 hp, List.forall_mem_singleton.2 hword⟩
    · exact isSound_refused
  · obtain ⟨_, _, _, ⟨⟩, hw, hfs⟩ := hs
    exact isSound_value (.functionOfAll hw _) hfs
  · exact isSound_value (.test rfl hs.1) hs.2
  · exact isSound_move hs
  · exact isSound_value (.test rfl hs.1) hs.2
  · exact isSound_operand ⟨hs.1, nofun⟩ hs.2
  · exact isSound_operand trivial hs.2
  · next hterminal =>
    refine isSound_move ⟨fun hp => lookup_ne_null ?_, hs.2⟩
    simpa [Token.isPlain, hterminal] using hplain hp
  · exact isSound_castEnd hs.1 (fun _ => .bare _) hs.2
  · exact isSound_move hs
  · exact isSound_move ⟨⟨hs.1, _, rfl⟩, hs.2⟩
  · exact isSound_move ⟨⟨hs.1.1, hs.1.2, nofun⟩, hs.2⟩
  · exact isSound_move hs
  · exact isSound_move ⟨⟨hs.1.1, hs.1.2, _, rfl⟩, hs.2⟩
  · obtain ⟨⟨hname, hprecision, n, rfl⟩, hfs⟩ := hs
    exact isSound_move ⟨⟨hname, hprecision, by rintro _ ⟨⟩; exact ⟨n, rfl⟩⟩, hfs⟩
  · exact isSound_castEnd hs.1.1 (.of_sizes hs.1.2.1 hs.1.2.2) hs.2
  · split
    · next hn =>
      exact isSound_addItem hs.2.head (.named hs.1 (isPlainWord_of_name? hplain hn)) hs.2.tail
    · exact isSound_refused
  · split
    · next hn =>
      exact isSound_move ⟨⟨hs.1, fun hp => ⟨isPlainWord_of_name? hplain hn hp, nofun⟩⟩, hs.2⟩
    · exact isSound_refused
  · exact isSound_tableStep hplain hs.1.1 hs.1.2 hs.2
  · split
    · next hn =>
      exact isSound_move
        ⟨⟨hs.1.1, fun hp => (hs.1.2 hp).alias (isPlainWord_of_name? hplain hn hp)⟩, hs.2⟩
    · exact isSound_refused
  · exact isSound_move hs
  · exact isSound_move ⟨by rintro _ ⟨⟩; exact hs.1, hs.2⟩
  · split
    · next h => exact isSound_settledStep (isSound_settled? hs h)
    · exact isSound_refused
  · exact isSound_move ⟨trivial, hs.2⟩
  · next hterminal =>
    obtain ⟨hitems, hfs⟩ := hs
    have hq := hfs.head.1.withLimit (exists_ofNat ht hterminal)
    have hne := hitems _ _ _ rfl
    exact isSound_ended hq hne hfs.tail
  · next hterminal =>
    obtain ⟨hitems, hfs⟩ := hs
    have hq := hfs.head.1.withOffset (exists_ofNat ht hterminal)
    have hne := hitems _ _ _ rfl
    exact isSound_ended hq hne hfs.tail
  · exact isSound_refused

end

/-! ### Texts -/

/-- The tokens that the rest of a text is read as, up to one that is refused. The next `skip`
characters belong to the last token. -/
def tokensFrom (s : State) : Nat → List Char → List Token
  | _, [] => []
  | skip + 1, _ :: cs => tokensFrom s skip cs
  | 0, c :: cs =>
    if isGap c then tokensFrom s 0 cs
    else
      match Token.first? s.phase.expected (c :: cs) with
      | none => []
      | some t =>
        match step s t with
        | .ok next => t :: tokensFrom next (t.text.length - 1) cs
        | .error _ => [t]

/-- The tokens that a query text is read as. -/
def tokens (text : String) : List Token := tokensFrom .initial 0 text.toList

section

variable {s next : State} {t : Token} {c : Char} {cs : List Char}

lemma tokensFrom_gap (hc : isGap c = true) : tokensFrom s 0 (c :: cs) = tokensFrom s 0 cs := by
  rw [tokensFrom, if_pos hc]

lemma tokensFrom_token (hc : isGap c = false)
    (hfirst : Token.first? s.phase.expected (c :: cs) = some t) (hstep : step s t = .ok next) :
    tokensFrom s 0 (c :: cs) = t :: tokensFrom next (t.text.length - 1) cs := by
  rw [tokensFrom, hc, if_neg Bool.false_ne_true, hfirst]
  simp only [hstep]

lemma mem_tokensFrom (hc : isGap c = false)
    (hfirst : Token.first? s.phase.expected (c :: cs) = some t) :
    t ∈ tokensFrom s 0 (c :: cs) := by
  rw [tokensFrom, hc, if_neg Bool.false_ne_true, hfirst]
  simp only
  split <;> exact List.mem_cons_self

end

/-- A reading of the rest of a text as a query, with the tokens on its way. -/
inductive Reading (q : Select) : State → Nat → List Char → List Token → Prop
  | ending {s : State} {skip : Nat} (hq : s.finish? = some q) : Reading q s skip [] []
  | skipped {s : State} {skip : Nat} {c : Char} {cs : List Char} {ts : List Token}
      (h : Reading q s skip cs ts) : Reading q s (skip + 1) (c :: cs) ts
  | gap {s : State} {c : Char} {cs : List Char} {ts : List Token} (hc : isGap c = true)
      (h : Reading q s 0 cs ts) : Reading q s 0 (c :: cs) ts
  | token {s next : State} {t : Token} {c : Char} {cs : List Char} {ts : List Token}
      (hc : isGap c = false) (hfirst : Token.first? s.phase.expected (c :: cs) = some t)
      (hstep : step s t = .ok next) (h : Reading q next (t.text.length - 1) cs ts) :
      Reading q s 0 (c :: cs) (t :: ts)

section

variable {s : State} {last pos : Position} {skip : Nat} {cs : List Char} {ts : List Token}
  {q : Select}

/-- A text that is read as a query is read as its tokens. -/
theorem reading_of_read (h : read s last pos skip cs = .ok q) :
    Reading q s skip cs (tokensFrom s skip cs) := by
  induction cs generalizing s last pos skip with
  | nil =>
    unfold read at h
    split at h
    · next hq =>
      cases h
      exact .ending hq
    · simp at h
  | cons c cs ih =>
    cases skip with
    | succ skip => exact .skipped (ih h)
    | zero =>
      unfold read at h
      split at h
      · next hc =>
        rw [tokensFrom_gap hc]
        exact .gap hc (ih h)
      · next hc =>
        rw [Bool.not_eq_true] at hc
        split at h
        · simp at h
        · next hfirst =>
          split at h
          · next hstep =>
            rw [tokensFrom_token hc hfirst hstep]
            exact .token hc hfirst hstep (ih h)
          · simp at h
          · simp at h

lemma Reading.read_eq (h : Reading q s skip cs ts) (last pos : Position) :
    read s last pos skip cs = .ok q := by
  induction h generalizing last pos with
  | ending hq => rw [read, hq]
  | skipped _ ih => exact ih _ _
  | gap hc _ ih =>
    rw [read, if_pos hc]
    exact ih _ _
  | token hc hfirst hstep _ ih =>
    rw [read, hc, if_neg Bool.false_ne_true, hfirst]
    simp only [hstep]
    exact ih _ _

lemma Reading.tokensFrom_eq (h : Reading q s skip cs ts) : tokensFrom s skip cs = ts := by
  induction h with
  | ending => rw [tokensFrom]
  | skipped _ ih => exact ih
  | gap hc _ ih => rw [tokensFrom_gap hc, ih]
  | token hc hfirst hstep _ ih => rw [tokensFrom_token hc hfirst hstep, ih]

/-- What is read of a text is a query that the parser builds. -/
theorem Reading.isParsed (h : Reading q s skip cs ts) (hs : s.IsSound plain)
    (hplain : ∀ t ∈ ts, plain → t.isPlain = true) : (Node.select q).IsParsed plain .query := by
  induction h with
  | ending hq =>
    unfold State.finish? at hq
    split at hq
    · next hsettled =>
      cases hq
      have hsound := isSound_settled? hs hsettled
      exact hsound.select.isParsed hsound.items_ne
    · simp at hq
  | skipped _ ih => exact ih hs hplain
  | gap _ _ ih => exact ih hs hplain
  | token _ hfirst hstep _ ih =>
    obtain ⟨ht, hplain⟩ := List.forall_mem_cons.1 hplain
    exact ih (isSound_step hs (Token.isNumeral_of_first? hfirst) ht hstep) hplain

end

variable {text : String} {q : Select}

/-- A query that is parsed is one that the parser builds, from plain tokens if all of them are. -/
theorem isParsed_of_parse (hplain : ∀ t ∈ tokens text, plain → t.isPlain = true)
    (h : parse text = .ok q) : (Node.select q).IsParsed plain .query :=
  (reading_of_read h).isParsed ⟨trivial, by simp [IsSoundStack, State.initial]⟩ hplain

/-- A query that is parsed is one that its text denotes. -/
theorem isWritten_of_parse (h : parse text = .ok q) : q.IsWritten := by
  have hparsed : (Node.select q).IsParsed False .query := isParsed_of_parse (fun _ _ => nofun) h
  exact hparsed.isWritten

end Parser

end GraphSelect
