import GraphSelect.Query.Parser
import Mathlib.Data.List.Forall2

/-!
The parser under other names.

The parser keeps the names of a text as they are, and looks into one only where it names a function
or a type, which it does in capitals. So if two rows of tokens differ in names only, and each name
of one is the same in capitals as the name in its place in the other, then the parser goes through
states that differ in these names only, and builds trees that do. What becomes of two arguments that
differ so is shown function by function, with the cases that the parser itself makes.
-/

namespace GraphSelect

/-! ### Trees and tokens -/

section

-- which names may stand in each other's place
variable (R : String → String → Prop)

structure TableRef.Renames (t t' : TableRef) : Prop where
  name : R t.name t'.name
  asName : Option.Rel R t.asName t'.asName

/-- Two trees that differ only in the names of columns and tables. -/
inductive Node.Renames : Node → Node → Prop
  | identifier {ns ns' : List String} {type : Option TypeName} (h : List.Forall₂ R ns ns') :
    Renames (.identifier ⟨ns, type⟩) (.identifier ⟨ns', type⟩)
  | literal (l : Literal) : Renames (.literal l) (.literal l)
  | typeSpec (t : TypeSpec) : Renames (.typeSpec t) (.typeSpec t)
  | list {ns ns' : List Node} (h : List.Forall₂ Renames ns ns') : Renames (.list ns) (.list ns')
  | call (f : Call) {ns ns' : List Node} (h : List.Forall₂ Renames ns ns') :
    Renames (.call f ns) (.call f ns')
  | table {t t' : TableRef} (h : t.Renames R t') : Renames (.table t) (.table t')
  | join {l l' r r' : Node} {c c' : Option Node} (hl : Renames l l') (kind : JoinKind)
    (hr : Renames r r') (hc : Option.Rel Renames c c') :
    Renames (.join l kind r c) (.join l' kind r' c')
  | order {k k' : SortKey Node} (h : Renames k.expression k'.expression)
    (hd : k.descending = k'.descending) : Renames (.order k) (.order k')
  | select {q q' : Select} (distinct : q.distinct = q'.distinct)
    (items : List.Forall₂ Renames q.items q'.items)
    (source : Option.Rel Renames q.source q'.source)
    (filter : Option.Rel Renames q.filter q'.filter)
    (groupBy : List.Forall₂ Renames q.groupBy q'.groupBy)
    (having : Option.Rel Renames q.having q'.having)
    (keys : List.Forall₂ Renames (q.orderBy.map (·.expression)) (q'.orderBy.map (·.expression)))
    (directions : q.orderBy.map (·.descending) = q'.orderBy.map (·.descending))
    (limit : q.limit = q'.limit) (offset : q.offset = q'.offset) :
    Renames (.select q) (.select q')

abbrev Node.ListRenames : List Node → List Node → Prop := List.Forall₂ (Node.Renames R)

/-- Two selects that differ only in the names of columns and tables. -/
structure Select.Renames (q q' : Select) : Prop where
  distinct : q.distinct = q'.distinct
  items : Node.ListRenames R q.items q'.items
  source : Option.Rel (Node.Renames R) q.source q'.source
  filter : Option.Rel (Node.Renames R) q.filter q'.filter
  groupBy : Node.ListRenames R q.groupBy q'.groupBy
  having : Option.Rel (Node.Renames R) q.having q'.having
  keys : Node.ListRenames R (q.orderBy.map (·.expression)) (q'.orderBy.map (·.expression))
  directions : q.orderBy.map (·.descending) = q'.orderBy.map (·.descending)
  limit : q.limit = q'.limit
  offset : q.offset = q'.offset

/-- Two tokens that the parser takes for the same, but for the name that each may be. -/
structure Token.Renames (t t' : Token) : Prop where
  terminal : t'.terminal = t.terminal
  name : Option.Rel R (Parser.name? t) (Parser.name? t')
  literal : Parser.literal? t' = Parser.literal? t
  size : t.terminal = .integer → t'.text = t.text

variable {R}

lemma Token.Renames.word {t t' : Token} (ht : Token.Renames R t t') (h : t.terminal = .name) :
    R (String.ofList t.text) (String.ofList t'.text) := by
  have hname := ht.name
  simpa [Parser.name?, h, ht.terminal] using hname

lemma Select.Renames.empty : Select.Renames R .empty .empty :=
  ⟨rfl, .nil, .none, .none, .nil, .none, .nil, rfl, rfl, rfl⟩

lemma Select.Renames.node {q q' : Select} (h : Select.Renames R q q') :
    (Node.select q).Renames R (.select q') :=
  .select h.distinct h.items h.source h.filter h.groupBy h.having h.keys h.directions h.limit
    h.offset

end

namespace Parser

/-! ### States -/

section

variable (R : String → String → Prop)

inductive Joining.Renames : Joining → Joining → Prop
  | mk {x x' : Node} (hx : x.Renames R x') (kind : JoinKind) : Renames ⟨x, kind⟩ ⟨x', kind⟩

inductive Frame.Renames : Frame → Frame → Prop
  | infixed (op : Operator) {x x' : Node} (hx : x.Renames R x') :
    Renames (.infixed op x) (.infixed op x')
  | prefixed (op : Operator) : Renames (.prefixed op) (.prefixed op)
  | bracket : Renames .bracket .bracket
  | arguments {n n' : String} (hn : R n n') (distinct : Bool) {xs xs' : List Node}
    (hxs : Node.ListRenames R xs xs') :
    Renames (.arguments n distinct xs) (.arguments n' distinct xs')
  | castOperand : Renames .castOperand .castOperand
  | castTarget {x x' : Node} (hx : x.Renames R x') : Renames (.castTarget x) (.castTarget x')
  | members {x x' : Node} (hx : x.Renames R x') {xs xs' : List Node}
    (hxs : Node.ListRenames R xs xs') : Renames (.members x xs) (.members x' xs')
  | joinOn {x x' : Node} (hx : x.Renames R x') (kind : JoinKind) {t t' : TableRef}
    (ht : t.Renames R t') : Renames (.joinOn x kind t) (.joinOn x' kind t')
  | query {q q' : Select} (hq : Select.Renames R q q') (c : Clause) :
    Renames (.query q c) (.query q' c)

inductive Phase.Renames : Phase → Phase → Prop
  | start : Renames .start .start
  | operand (o : Opening) : Renames (.operand o) (.operand o)
  | value {x x' : Node} (hx : x.Renames R x') (tail : Tail) :
    Renames (.value x tail) (.value x' tail)
  | qualifier {n n' : String} (hn : R n n') (starAllowed : Bool) :
    Renames (.qualifier n starAllowed) (.qualifier n' starAllowed)
  | starArgument : Renames .starArgument .starArgument
  | is {x x' : Node} (hx : x.Renames R x') : Renames (.is x) (.is x')
  | isNot {x x' : Node} (hx : x.Renames R x') : Renames (.isNot x) (.isNot x')
  | within {x x' : Node} (hx : x.Renames R x') : Renames (.within x) (.within x')
  | cast : Renames .cast .cast
  | typeName : Renames .typeName .typeName
  | typeNamed {n n' : String} (hn : R n n') : Renames (.typeNamed n) (.typeNamed n')
  | precision {n n' : String} (hn : R n n') : Renames (.precision n) (.precision n')
  | precisionRead {n n' : String} (hn : R n n') (p : Int) :
    Renames (.precisionRead n p) (.precisionRead n' p)
  | scale {n n' : String} (hn : R n n') (p : Int) : Renames (.scale n p) (.scale n' p)
  | scaleRead {n n' : String} (hn : R n n') (p s : Int) :
    Renames (.scaleRead n p s) (.scaleRead n' p s)
  | typeSized {n n' : String} (hn : R n n') (p : Int) (s : Option Int) :
    Renames (.typeSized n p s) (.typeSized n' p s)
  | itemAlias {x x' : Node} (hx : x.Renames R x') : Renames (.itemAlias x) (.itemAlias x')
  | tableName {j j' : Option Joining} (hj : Option.Rel (Joining.Renames R) j j') :
    Renames (.tableName j) (.tableName j')
  | tableRead {j j' : Option Joining} (hj : Option.Rel (Joining.Renames R) j j') {t t' : TableRef}
    (ht : t.Renames R t') : Renames (.tableRead j t) (.tableRead j' t')
  | tableAlias {j j' : Option Joining} (hj : Option.Rel (Joining.Renames R) j j')
    {t t' : TableRef} (ht : t.Renames R t') : Renames (.tableAlias j t) (.tableAlias j' t')
  | joinWord {x x' : Node} (hx : x.Renames R x') (kind : JoinKind) (outerAllowed : Bool) :
    Renames (.joinWord x kind outerAllowed) (.joinWord x' kind outerAllowed)
  | ended (e : Ending) : Renames (.ended e) (.ended e)
  | by (c : Clause) : Renames (.by c) (.by c)
  | count (c : Clause) : Renames (.count c) (.count c)

abbrev StacksRename : List Frame → List Frame → Prop := List.Forall₂ (Frame.Renames R)

/-- An expression and the stack around it. -/
structure PairRenames (r r' : Node × List Frame) : Prop where
  expression : r.1.Renames R r'.1
  stack : StacksRename R r.2 r'.2

structure State.Renames (s s' : State) : Prop where
  phase : s.phase.Renames R s'.phase
  stack : StacksRename R s.stack s'.stack

/-- Moves to states that differ in names only, or refusals of the same kind. -/
inductive Move.Renames : Move → Move → Prop
  | ok {s s' : State} (h : s.Renames R s') : Renames (.ok s) (.ok s')
  | unexpected : Renames refused refused
  | unknownType {n n' : String} (h : R n n') :
    Renames (.error (.unknownType n)) (.error (.unknownType n'))

structure Settled.Renames (s s' : Settled) : Prop where
  select : Select.Renames R s.select s'.select
  clause : s.clause = s'.clause
  rest : StacksRename R s.rest s'.rest

end

variable {R : String → String → Prop} {x x' : Node} {fs fs' : List Frame} {t t' : Token}

/-! ### Parts of a step -/

lemma renames_go {p p' : Phase} (hp : p.Renames R p') (hfs : StacksRename R fs fs') :
    Move.Renames R (go p fs) (go p' fs') :=
  .ok ⟨hp, hfs⟩

lemma renames_apply (op : Operator) {xs xs' : List Node} (h : Node.ListRenames R xs xs') :
    (Node.apply op xs).Renames R (.apply op xs') :=
  .call _ h

lemma renames_applyPrefix (op : Operator) (hx : x.Renames R x') :
    (applyPrefix op x).Renames R (applyPrefix op x') := by
  have happly := renames_apply op (.cons hx .nil)
  cases op with
  | negate =>
    cases hx with
    | literal l =>
      dsimp only [applyPrefix]
      split
      · exact .literal _
      · exact happly
    | _ => exact happly
  | _ => cases hx <;> exact happly

lemma renames_reduce (level : Nat) (hx : x.Renames R x') (hfs : StacksRename R fs fs') :
    PairRenames R (reduce level x fs) (reduce level x' fs') := by
  induction hfs generalizing x x' with
  | nil => exact ⟨hx, .nil⟩
  | @cons f f' fs fs' hf hfs ih =>
    have hsame := List.Forall₂.cons hf hfs
    cases hf with
    | infixed op hleft =>
      unfold reduce
      split
      · exact ih (renames_apply op (.cons hleft (.cons hx .nil)))
      · exact ⟨hx, hsame⟩
    | prefixed op =>
      unfold reduce
      split
      · exact ih (renames_applyPrefix op hx)
      · exact ⟨hx, hsame⟩
    | _ => exact ⟨hx, hsame⟩

lemma renames_comparand? (hx : x.Renames R x') (tail : Tail) (hfs : StacksRename R fs fs') :
    Option.Rel (PairRenames R) (comparand? x tail fs) (comparand? x' tail fs') := by
  have h := renames_reduce 5 hx hfs
  unfold comparand?
  generalize reduce 5 x fs = r, reduce 5 x' fs' = r' at h
  split
  · exact .none
  · obtain ⟨y, gs⟩ := r
    obtain ⟨y', gs'⟩ := r'
    have hsame : Option.Rel (PairRenames R) (some (y, gs)) (some (y', gs')) := .some h
    cases h.stack with
    | nil => exact hsame
    | cons hf hfs =>
      cases hf with
      | infixed op hleft =>
        dsimp only
        split
        · exact .none
        · exact hsame
      | _ => exact hsame

lemma renames_infixStep (op : Operator) (hx : x.Renames R x') (tail : Tail)
    (hfs : StacksRename R fs fs') :
    Move.Renames R (infixStep op x tail fs) (infixStep op x' tail fs') := by
  have hcomparand := renames_comparand? hx tail hfs
  have hreduce (level : Nat) (o : Opening) : Move.Renames R
      (go (.operand o) (.infixed op (reduce level x fs).1 :: (reduce level x fs).2))
      (go (.operand o) (.infixed op (reduce level x' fs').1 :: (reduce level x' fs').2)) := by
    have h := renames_reduce level hx hfs
    exact renames_go (.operand o) (.cons (.infixed op h.expression) h.stack)
  unfold infixStep
  split
  · generalize comparand? x tail fs = r, comparand? x' tail fs' = r' at hcomparand
    cases hcomparand with
    | none => exact .unexpected
    | some h => exact renames_go (.operand .strict) (.cons (.infixed op h.expression) h.stack)
  · split
    · exact hreduce _ _
    · split
      · exact .unexpected
      · exact hreduce _ _

lemma renames_append {xs xs' : List Node} (hxs : Node.ListRenames R xs xs')
    (hx : x.Renames R x') : Node.ListRenames R (xs ++ [x]) (xs' ++ [x']) :=
  List.rel_append hxs (.cons hx .nil)

lemma renames_column {ns ns' : List String} (h : List.Forall₂ R ns ns') :
    (column ns).Renames R (column ns') :=
  .identifier h

lemma renames_named (hx : x.Renames R x') {n n' : String} (hn : R n n') :
    (Node.named x n).Renames R (.named x' n') :=
  renames_apply .rename (.cons hx (.cons (.identifier (.cons hn .nil)) .nil))

lemma renames_addItem {q q' : Select} (hq : Select.Renames R q q') (hx : x.Renames R x') :
    Select.Renames R (addItem q x) (addItem q' x') :=
  { hq with items := renames_append hq.items hx }

lemma renames_addKey {q q' : Select} (hq : Select.Renames R q q') (hx : x.Renames R x')
    (descending : Bool) :
    Select.Renames R (addKey q x descending) (addKey q' x' descending) := by
  refine { hq with keys := ?_, directions := ?_ }
  · simpa [addKey] using renames_append hq.keys hx
  · simp [addKey, hq.directions]

lemma renames_distinct {q q' : Select} (hq : Select.Renames R q q') :
    Select.Renames R { q with distinct := true } { q' with distinct := true } :=
  { hq with distinct := rfl }

lemma renames_limit {q q' : Select} (hq : Select.Renames R q q') (l : Literal) :
    Select.Renames R { q with limit := some l } { q' with limit := some l } :=
  { hq with limit := rfl }

lemma renames_offset {q q' : Select} (hq : Select.Renames R q q') (l : Literal) :
    Select.Renames R { q with offset := some l } { q' with offset := some l } :=
  { hq with offset := rfl }

/-- A name or a constant begins the same operand in both states. -/
lemma renames_leaf (hfs : StacksRename R fs fs') (ht : Token.Renames R t t') :
    Move.Renames R
      (match name? t, literal? t with
        | some n, _ => go (.value (column [n]) .name) fs
        | none, some l => go (.value (.literal l) .atom) fs
        | none, none => refused)
      (match name? t', literal? t' with
        | some n, _ => go (.value (column [n]) .name) fs'
        | none, some l => go (.value (.literal l) .atom) fs'
        | none, none => refused) := by
  have hname := ht.name
  rw [ht.literal]
  generalize name? t = n, name? t' = n' at hname
  cases hname with
  | some h => exact renames_go (.value (renames_column (.cons h .nil)) .name) hfs
  | none =>
    cases literal? t with
    | some l => exact renames_go (.value (.literal l) .atom) hfs
    | none => exact .unexpected

/-- What names may stand in each other's place: the star in its own, and names that are the same in
capitals. -/
structure SpellsAlike (R : String → String → Prop) : Prop where
  star : R "*" "*"
  upper : ∀ {n n' : String}, R n n' → Text.upper n = Text.upper n'

variable (hR : SpellsAlike R)

include hR

lemma renames_functionCall {n n' : String} (hn : R n n') (distinct : Bool) {xs xs' : List Node}
    (hxs : Node.ListRenames R xs xs') :
    (functionCall n distinct xs).Renames R (functionCall n' distinct xs') := by
  unfold functionCall Operator.ofFunctionName
  rw [hR.upper hn]
  exact .call _ hxs

lemma renames_star : star.Renames R star := .identifier (.cons hR.star .nil)

lemma renames_operandStep (o : Opening) (hfs : StacksRename R fs fs') (ht : Token.Renames R t t') :
    Move.Renames R (operandStep o fs t) (operandStep o fs' t') := by
  have hword := renames_leaf hfs ht
  unfold operandStep
  rw [ht.terminal]
  generalize name? t = n, name? t' = n', literal? t = l, literal? t' = l' at hword
  cases t.terminal with
  | sign s =>
    cases s with
    | star =>
      cases o with
      | select | item =>
        obtain _ | ⟨hf, hfs⟩ := hfs
        · exact hword
        · cases hf with
          | query hq c =>
            exact renames_go (.ended .star)
              (.cons (.query (renames_addItem hq (renames_star hR)) c) hfs)
          | _ => exact hword
      | distinct =>
        obtain _ | ⟨hf, hfs⟩ := hfs
        · exact hword
        · cases hf with
          | query hq c =>
            exact renames_go (.ended .star)
              (.cons (.query (renames_addItem hq (renames_star hR)) c) hfs)
          | arguments hn d hxs =>
            exact renames_go .starArgument
              (.cons (.arguments hn d (.cons (renames_star hR) .nil)) hfs)
          | _ => exact hword
      | arguments =>
        obtain _ | ⟨hf, hfs⟩ := hfs
        · exact hword
        · cases hf with
          | arguments hn d hxs =>
            exact renames_go .starArgument
              (.cons (.arguments hn d (.cons (renames_star hR) .nil)) hfs)
          | _ => exact hword
      | _ => exact hword
    | closing =>
      cases o with
      | arguments | distinct =>
        obtain _ | ⟨hf, hfs⟩ := hfs
        · exact hword
        · cases hf with
          | arguments hn d hxs =>
            exact renames_go (.value (renames_functionCall hR hn d hxs) .atom) hfs
          | _ => exact hword
      | _ => exact hword
    | minus => exact renames_go (.operand .strict) (.cons (.prefixed .negate) hfs)
    | opening => exact renames_go (.operand .bracket) (.cons .bracket hfs)
    | _ => exact hword
  | keyword k =>
    cases k with
    | select =>
      cases o with
      | bracket => exact renames_go (.operand .select) (.cons (.query .empty .items) hfs)
      | _ => exact hword
    | distinct =>
      cases o with
      | select =>
        obtain _ | ⟨hf, hfs⟩ := hfs
        · exact hword
        · cases hf with
          | query hq c =>
            exact renames_go (.operand .distinct) (.cons (.query (renames_distinct hq) c) hfs)
          | _ => exact hword
      | arguments =>
        obtain _ | ⟨hf, hfs⟩ := hfs
        · exact hword
        · cases hf with
          | arguments hn d hxs =>
            exact renames_go (.operand .distinct) (.cons (.arguments hn true hxs) hfs)
          | _ => exact hword
      | _ => exact hword
    | not =>
      cases o with
      | strict => exact .unexpected
      | _ => exact renames_go (.operand .condition) (.cons (.prefixed .not) hfs)
    | cast => exact renames_go .cast hfs
    | _ => exact hword
  | _ => exact hword

omit hR

/-! ### Ends of expressions, entries and tables -/

lemma renames_settle? (hx : x.Renames R x') (hfs : StacksRename R fs fs') :
    Option.Rel (Settled.Renames R) (settle? x fs) (settle? x' fs') := by
  obtain _ | ⟨hf, hfs⟩ := hfs
  · exact .none
  · cases hf with
    | joinOn hleft kind ht =>
      obtain _ | ⟨hf, hfs⟩ := hfs
      · exact .none
      · cases hf with
        | query hq c =>
          cases c with
          | source =>
            have hjoin := Node.Renames.join hleft kind (.table ht) (.some hx)
            exact .some ⟨{ hq with source := .some hjoin }, rfl, hfs⟩
          | _ => exact .none
        | _ => exact .none
    | query hq c =>
      cases c with
      | items => exact .some ⟨renames_addItem hq hx, rfl, hfs⟩
      | filter => exact .some ⟨{ hq with filter := .some hx }, rfl, hfs⟩
      | groupBy => exact .some ⟨{ hq with groupBy := renames_append hq.groupBy hx }, rfl, hfs⟩
      | having => exact .some ⟨{ hq with having := .some hx }, rfl, hfs⟩
      | orderBy => exact .some ⟨renames_addKey hq hx false, rfl, hfs⟩
      | _ => exact .none
    | _ => exact .none

lemma renames_joined {j j' : Option Joining} (hj : Option.Rel (Joining.Renames R) j j')
    {table table' : TableRef} (ht : table.Renames R table') :
    (joined j table).Renames R (joined j' table') := by
  cases hj with
  | none => exact .table ht
  | some hj =>
    obtain ⟨hleft, kind⟩ := hj
    exact .join hleft kind (.table ht) .none

lemma renames_settled? {s s' : State} (hs : s.Renames R s') :
    Option.Rel (Settled.Renames R) s.settled? s'.settled? := by
  obtain ⟨p, fs⟩ := s
  obtain ⟨p', fs'⟩ := s'
  obtain ⟨hp, hfs⟩ := hs
  cases hp with
  | value hx tail =>
    have h := renames_reduce 0 hx hfs
    exact renames_settle? h.expression h.stack
  | tableRead hj ht =>
    obtain _ | ⟨hf, hfs⟩ := hfs
    · exact .none
    · cases hf with
      | query hq c =>
        cases c with
        | source => exact .some ⟨{ hq with source := .some (renames_joined hj ht) }, rfl, hfs⟩
        | _ => exact .none
      | _ => exact .none
  | ended e =>
    obtain _ | ⟨hf, hfs⟩ := hfs
    · exact .none
    · cases hf with
      | query hq c => exact .some ⟨hq, rfl, hfs⟩
      | _ => exact .none
  | _ => exact .none

lemma renames_settledStep {s s' : Settled} (hs : s.Renames R s') (ht : Token.Renames R t t') :
    Move.Renames R (settledStep s t) (settledStep s' t') := by
  obtain ⟨q, c, fs⟩ := s
  obtain ⟨q', c', fs'⟩ := s'
  obtain ⟨hq, hc, hfs⟩ := hs
  obtain rfl : c = c' := hc
  have hsame : StacksRename R (.query q c :: fs) (.query q' c :: fs') := .cons (.query hq c) hfs
  have hsource := hq.source
  unfold settledStep
  dsimp only
  rw [ht.terminal]
  generalize q.source = source, q'.source = source' at hsource
  cases t.terminal with
  | sign s =>
    cases s with
    | comma =>
      cases c with
      | items => exact renames_go (.operand .item) hsame
      | groupBy | orderBy => exact renames_go (.operand .condition) hsame
      | source =>
        cases hsource with
        | some hleft => exact renames_go (.tableName (.some ⟨hleft, _⟩)) hsame
        | none => exact .unexpected
      | _ => exact .unexpected
    | closing =>
      obtain _ | ⟨hf, hfs⟩ := hfs
      · exact .unexpected
      · cases hf with
        | bracket =>
          exact renames_go (.value (renames_apply .scalarQuery (.cons hq.node .nil)) .atom) hfs
        | _ => exact .unexpected
    | _ => exact .unexpected
  | keyword k =>
    have hclause {next : Clause} {p : Phase} (hp : p.Renames R p) : Move.Renames R
        (if c.rank < next.rank then go p (.query q next :: fs) else refused)
        (if c.rank < next.rank then go p (.query q' next :: fs') else refused) := by
      split
      · exact renames_go hp (.cons (.query hq next) hfs)
      · exact .unexpected
    cases k with
    | join =>
      cases c with
      | source =>
        cases hsource with
        | some hleft => exact renames_go (.tableName (.some ⟨hleft, _⟩)) hsame
        | none => exact .unexpected
      | _ => exact .unexpected
    | inner | cross | left | right | full =>
      cases hsource with
      | some hleft =>
        dsimp only [joinWord?]
        split
        · exact renames_go (.joinWord hleft _ _) hsame
        · exact .unexpected
      | none => exact .unexpected
    | «from» => exact hclause (.tableName .none)
    | «where» => exact hclause (.operand .condition)
    | group => exact hclause (.by .groupBy)
    | having => exact hclause (.operand .condition)
    | order => exact hclause (.by .orderBy)
    | limit => exact hclause (.count .limit)
    | offset => exact hclause (.count .offset)
    | _ => exact .unexpected
  | _ => exact .unexpected

/-- What a token does behind a complete entry, if there is one. -/
def settledMove (s : Option Settled) (t : Token) : Move :=
  match s with
  | some s => settledStep s t
  | none => refused

lemma renames_settledMove {s s' : Option Settled} (hs : Option.Rel (Settled.Renames R) s s')
    (ht : Token.Renames R t t') : Move.Renames R (settledMove s t) (settledMove s' t') := by
  cases hs with
  | some hs => exact renames_settledStep hs ht
  | none => exact .unexpected

/-- Tables that are only listed have no condition. -/
lemma renames_on {j j' : Joining} (hj : j.Renames R j') {table table' : TableRef}
    (htable : table.Renames R table') (hfs : StacksRename R fs fs') :
    Move.Renames R
      (if j.kind = .comma then refused
        else go (.operand .condition) (.joinOn j.left j.kind table :: fs))
      (if j'.kind = .comma then refused
        else go (.operand .condition) (.joinOn j'.left j'.kind table' :: fs')) := by
  obtain ⟨hleft, kind⟩ := hj
  dsimp only
  split
  · exact .unexpected
  · exact renames_go (.operand .condition) (.cons (.joinOn hleft kind htable) hfs)

lemma renames_tableStep {j j' : Option Joining} (hj : Option.Rel (Joining.Renames R) j j')
    {table table' : TableRef} (htable : table.Renames R table') (hfs : StacksRename R fs fs')
    (ht : Token.Renames R t t') :
    Move.Renames R (tableStep j table fs t) (tableStep j' table' fs' t') := by
  have hsettled : Option.Rel (Settled.Renames R) (State.settled? ⟨.tableRead j table, fs⟩)
      (State.settled? ⟨.tableRead j' table', fs'⟩) :=
    renames_settled? ⟨.tableRead hj htable, hfs⟩
  have hend := renames_settledMove hsettled ht
  obtain ⟨n, a⟩ := table
  obtain ⟨n', a'⟩ := table'
  obtain ⟨hn, ha⟩ := htable
  have hname := ht.name
  unfold tableStep
  rw [ht.terminal]
  dsimp only at hn ha ⊢
  generalize name? t = m, name? t' = m' at hname
  cases ha with
  | none =>
    cases hname with
    | @some m m' hm =>
      have htable : TableRef.Renames R ⟨n, some m⟩ ⟨n', some m'⟩ := ⟨hn, .some hm⟩
      have hread := renames_go (.tableRead hj htable) hfs
      cases t.terminal with
      | keyword k =>
        cases k with
        | as => exact renames_go (.tableAlias hj ⟨hn, .none⟩) hfs
        | _ => exact hread
      | _ => exact hread
    | none =>
      cases t.terminal with
      | keyword k =>
        cases k with
        | as => exact renames_go (.tableAlias hj ⟨hn, .none⟩) hfs
        | on =>
          cases hj with
          | none => exact hend
          | some hj => exact renames_on hj ⟨hn, .none⟩ hfs
        | _ => exact hend
      | _ => exact hend
  | some ha =>
    cases hname <;> cases t.terminal with
    | keyword k =>
      cases k with
      | on =>
        cases hj with
        | none => exact hend
        | some hj => exact renames_on hj ⟨hn, .some ha⟩ hfs
      | _ => exact hend
    | _ => exact hend

include hR

lemma renames_expressionEnd (hx : x.Renames R x') (hfs : StacksRename R fs fs')
    (ht : Token.Renames R t t') :
    Move.Renames R (expressionEnd x fs t) (expressionEnd x' fs' t') := by
  have h := renames_reduce 0 hx hfs
  have hname := ht.name
  unfold expressionEnd
  rw [ht.terminal]
  generalize reduce 0 x fs = r, reduce 0 x' fs' = r' at h
  obtain ⟨y, gs⟩ := r
  obtain ⟨y', gs'⟩ := r'
  obtain ⟨hy, hgs⟩ := h
  dsimp only at hy hgs
  have hend := renames_settledMove (renames_settle? hy hgs) ht
  obtain _ | ⟨hf, hgs⟩ := hgs
  · exact .unexpected
  · cases hf with
    | bracket =>
      cases t.terminal with
      | sign s =>
        cases s with
        | closing => exact renames_go (.value hy .atom) hgs
        | _ => exact .unexpected
      | _ => exact .unexpected
    | arguments hn d hxs =>
      have hread := renames_append hxs hy
      cases t.terminal with
      | sign s =>
        cases s with
        | comma =>
          exact renames_go (.operand .condition) (.cons (.arguments hn d hread) hgs)
        | closing => exact renames_go (.value (renames_functionCall hR hn d hread) .atom) hgs
        | _ => exact .unexpected
      | _ => exact .unexpected
    | castOperand =>
      cases t.terminal with
      | keyword k =>
        cases k with
        | as => exact renames_go .typeName (.cons (.castTarget hy) hgs)
        | _ => exact .unexpected
      | _ => exact .unexpected
    | members hz hxs =>
      have hread := renames_append hxs hy
      cases t.terminal with
      | sign s =>
        cases s with
        | comma => exact renames_go (.operand .condition) (.cons (.members hz hread) hgs)
        | closing =>
          have hmembers := renames_apply .within (.cons hz (.cons (.list hread) .nil))
          exact renames_go (.value hmembers .test) hgs
        | _ => exact .unexpected
      | _ => exact .unexpected
    | query hq c =>
      cases c with
      | items =>
        generalize name? t = m, name? t' = m' at hname
        cases hname with
        | some hm =>
          have hitem := renames_addItem hq (renames_named hy hm)
          cases t.terminal with
          | keyword k =>
            cases k with
            | as => exact renames_go (.itemAlias hy) (.cons (.query hq _) hgs)
            | _ => exact renames_go (.ended .name) (.cons (.query hitem _) hgs)
          | _ => exact renames_go (.ended .name) (.cons (.query hitem _) hgs)
        | none =>
          cases t.terminal with
          | keyword k =>
            cases k with
            | as => exact renames_go (.itemAlias hy) (.cons (.query hq _) hgs)
            | _ => exact hend
          | _ => exact hend
      | orderBy =>
        have hkey (descending : Bool) :=
          Frame.Renames.query (renames_addKey hq hy descending) .orderBy
        cases t.terminal with
        | keyword k =>
          cases k with
          | asc => exact renames_go (.ended .direction) (.cons (hkey false) hgs)
          | desc => exact renames_go (.ended .direction) (.cons (hkey true) hgs)
          | _ => exact hend
        | _ => exact hend
      | _ => exact hend
    | joinOn => exact hend
    | _ => exact .unexpected

omit hR in
lemma renames_atItemStart (hfs : StacksRename R fs fs') : atItemStart fs = atItemStart fs' := by
  obtain _ | ⟨hf, hfs⟩ := hfs
  · rfl
  · cases hf with
    | query hq c => cases c <;> rfl
    | _ => rfl

lemma renames_valueStep (hx : x.Renames R x') (tail : Tail) (hfs : StacksRename R fs fs')
    (ht : Token.Renames R t t') :
    Move.Renames R (valueStep x tail fs t) (valueStep x' tail fs' t') := by
  have hend := renames_expressionEnd hR hx hfs ht
  have hinfix (op : Operator) := renames_infixStep op hx tail hfs
  have hcomparand := renames_comparand? hx tail hfs
  unfold valueStep
  rw [ht.terminal]
  generalize comparand? x tail fs = r, comparand? x' tail fs' = r' at hcomparand
  cases t.terminal with
  | sign s =>
    cases s with
    | dot =>
      cases tail with
      | name =>
        cases hx with
        | identifier hns =>
          obtain _ | ⟨hn, _ | _⟩ := hns
          · exact hend
          · rw [renames_atItemStart hfs]
            exact renames_go (.qualifier hn _) hfs
          · exact hend
        | _ => exact hend
      | _ => exact hend
    | opening =>
      cases tail with
      | name =>
        cases hx with
        | identifier hns =>
          obtain _ | ⟨hn, _ | _⟩ := hns
          · exact hend
          · exact renames_go (.operand .arguments) (.cons (.arguments hn false .nil) hfs)
          · exact hend
        | _ => exact hend
      | _ => exact hend
    | comma | closing => exact hend
    | _ => exact hinfix _
  | keyword k =>
    cases k with
    | like | and | or => exact hinfix _
    | is =>
      cases hcomparand with
      | some h => exact renames_go (.is h.expression) h.stack
      | none => exact .unexpected
    | «in» =>
      cases hcomparand with
      | some h => exact renames_go (.within h.expression) h.stack
      | none => exact .unexpected
    | _ => exact hend
  | _ => exact hend

/-! ### Steps -/

/-- What a token does that has to be a name. -/
def nameMove (t : Token) (f : String → Move) : Move :=
  match name? t with
  | some n => f n
  | none => refused

omit hR in
lemma renames_nameMove {f f' : String → Move} (ht : Token.Renames R t t')
    (hf : ∀ {n n' : String}, R n n' → Move.Renames R (f n) (f' n')) :
    Move.Renames R (nameMove t f) (nameMove t' f') := by
  have hname := ht.name
  unfold nameMove
  generalize name? t = m, name? t' = m' at hname
  cases hname with
  | some hn => exact hf hn
  | none => exact .unexpected

lemma renames_castEnd {n n' : String} (hn : R n n') (p s : Option Int)
    (hfs : StacksRename R fs fs') : Move.Renames R (castEnd n p s fs) (castEnd n' p s fs') := by
  have hlookup : TypeName.lookup n = TypeName.lookup n' := by
    unfold TypeName.lookup
    rw [hR.upper hn]
  unfold castEnd
  rw [← hlookup]
  cases TypeName.lookup n with
  | none => exact .unknownType hn
  | some type =>
    obtain _ | ⟨hf, hfs⟩ := hfs
    · exact .unexpected
    · cases hf with
      | castTarget hx =>
        have htarget := Node.Renames.typeSpec (R := R) ⟨type, p, s⟩
        exact renames_go (.value (renames_apply .cast (.cons hx (.cons htarget .nil))) .atom) hfs
      | _ => exact .unexpected

lemma renames_qualifier {n n' : String} (hn : R n n') (starAllowed : Bool)
    (hfs : StacksRename R fs fs') (ht : Token.Renames R t t') :
    Move.Renames R (step ⟨.qualifier n starAllowed, fs⟩ t)
      (step ⟨.qualifier n' starAllowed, fs'⟩ t') := by
  unfold step
  rw [ht.terminal]
  dsimp only
  have hcolumn : Move.Renames R
      (nameMove t fun m => go (.value (column [n, m]) .name) fs)
      (nameMove t' fun m => go (.value (column [n', m]) .name) fs') :=
    renames_nameMove ht fun hm =>
      renames_go (.value (renames_column (.cons hn (.cons hm .nil))) .name) hfs
  cases starAllowed with
  | false => exact hcolumn
  | true =>
    cases t.terminal with
    | sign s =>
      cases s with
      | star =>
        obtain _ | ⟨hf, hfs⟩ := hfs
        · exact hcolumn
        · cases hf with
          | query hq c =>
            cases c with
            | items =>
              have hall := renames_column (.cons hn (.cons hR.star .nil))
              exact renames_go (.ended .star) (.cons (.query (renames_addItem hq hall) _) hfs)
            | _ => exact hcolumn
          | _ => exact hcolumn
      | _ => exact hcolumn
    | _ => exact hcolumn

lemma renames_starArgument (hfs : StacksRename R fs fs') (ht : Token.Renames R t t') :
    Move.Renames R (step ⟨.starArgument, fs⟩ t) (step ⟨.starArgument, fs'⟩ t') := by
  unfold step
  rw [ht.terminal]
  dsimp only
  cases t.terminal with
  | sign s =>
    cases s with
    | closing =>
      obtain _ | ⟨hf, hfs⟩ := hfs
      · exact .unexpected
      · cases hf with
        | arguments hn d hxs =>
          exact renames_go (.value (renames_functionCall hR hn d hxs) .atom) hfs
        | _ => exact .unexpected
    | _ => exact .unexpected
  | _ => exact .unexpected

omit hR in
lemma renames_itemAlias (hx : x.Renames R x') (hfs : StacksRename R fs fs')
    (ht : Token.Renames R t t') :
    Move.Renames R (step ⟨.itemAlias x, fs⟩ t) (step ⟨.itemAlias x', fs'⟩ t') := by
  unfold step
  rw [ht.terminal]
  dsimp only
  obtain _ | ⟨hf, hfs⟩ := hfs
  · exact .unexpected
  · cases hf with
    | query hq c =>
      cases c with
      | items =>
        refine renames_nameMove ht fun hn => ?_
        have hitem := renames_addItem hq (renames_named hx hn)
        exact renames_go (.ended .name) (.cons (.query hitem _) hfs)
      | _ => exact .unexpected
    | _ => exact .unexpected

omit hR in
lemma renames_joinWord (hx : x.Renames R x') (kind : JoinKind) (outerAllowed : Bool)
    (hfs : StacksRename R fs fs') (ht : Token.Renames R t t') :
    Move.Renames R (step ⟨.joinWord x kind outerAllowed, fs⟩ t)
      (step ⟨.joinWord x' kind outerAllowed, fs'⟩ t') := by
  unfold step
  rw [ht.terminal]
  dsimp only
  cases t.terminal with
  | keyword k =>
    cases k with
    | join => cases outerAllowed <;> exact renames_go (.tableName (.some (.mk hx kind))) hfs
    | outer =>
      cases outerAllowed with
      | true => exact renames_go (.joinWord hx kind false) hfs
      | false => exact .unexpected
    | _ => cases outerAllowed <;> exact .unexpected
  | _ => cases outerAllowed <;> exact .unexpected

omit hR in
lemma renames_count (c : Clause) (hfs : StacksRename R fs fs') (ht : Token.Renames R t t') :
    Move.Renames R (step ⟨.count c, fs⟩ t) (step ⟨.count c, fs'⟩ t') := by
  unfold step
  rw [ht.terminal]
  dsimp only
  cases hterminal : t.terminal with
  | integer =>
    rw [ht.size hterminal]
    obtain _ | ⟨hf, hfs⟩ := hfs
    · cases c <;> exact .unexpected
    · cases hf with
      | query hq d =>
        cases c with
        | limit => exact renames_go (.ended .limit) (.cons (.query (renames_limit hq _) d) hfs)
        | offset => exact renames_go (.ended .offset) (.cons (.query (renames_offset hq _) d) hfs)
        | _ => exact .unexpected
      | _ => cases c <;> exact .unexpected
  | _ => cases c <;> exact .unexpected

/-- **The parser looks into names in capitals only.** From states that differ in names only, tokens
that do lead to states that do. -/
theorem renames_step {s s' : State} (hs : s.Renames R s') (ht : Token.Renames R t t') :
    Move.Renames R (step s t) (step s' t') := by
  obtain ⟨p, fs⟩ := s
  obtain ⟨p', fs'⟩ := s'
  obtain ⟨hp, hfs⟩ := hs
  obtain ⟨terminal, w⟩ := t
  obtain ⟨terminal', w'⟩ := t'
  obtain rfl : terminal = terminal' := ht.terminal.symm
  dsimp only at hp hfs
  unfold step
  dsimp only
  cases hp with
  | start =>
    cases terminal with
    | keyword k =>
      cases k with
      | select => exact renames_go (.operand .select) (.cons (.query .empty .items) hfs)
      | _ => exact .unexpected
    | _ => exact .unexpected
  | operand o => exact renames_operandStep hR o hfs ht
  | value hx tail => exact renames_valueStep hR hx tail hfs ht
  | qualifier hn starAllowed => exact renames_qualifier hR hn starAllowed hfs ht
  | starArgument => exact renames_starArgument hR hfs ht
  | is hx =>
    cases terminal with
    | keyword k =>
      cases k with
      | null => exact renames_go (.value (renames_apply .isNull (.cons hx .nil)) .test) hfs
      | not => exact renames_go (.isNot hx) hfs
      | _ => exact .unexpected
    | _ => exact .unexpected
  | isNot hx =>
    cases terminal with
    | keyword k =>
      cases k with
      | null => exact renames_go (.value (renames_apply .isNotNull (.cons hx .nil)) .test) hfs
      | _ => exact .unexpected
    | _ => exact .unexpected
  | within hx =>
    cases terminal with
    | sign s =>
      cases s with
      | opening => exact renames_go (.operand .condition) (.cons (.members hx .nil) hfs)
      | _ => exact .unexpected
    | _ => exact .unexpected
  | cast =>
    cases terminal with
    | sign s =>
      cases s with
      | opening => exact renames_go (.operand .condition) (.cons .castOperand hfs)
      | _ => exact .unexpected
    | _ => exact .unexpected
  | typeName =>
    cases terminal with
    | name => exact renames_go (.typeNamed (ht.word rfl)) hfs
    | _ => exact .unexpected
  | typeNamed hn =>
    cases terminal with
    | sign s =>
      cases s with
      | closing => exact renames_castEnd hR hn none none hfs
      | opening => exact renames_go (.precision hn) hfs
      | _ => exact .unexpected
    | _ => exact .unexpected
  | precision hn =>
    cases terminal with
    | integer =>
      obtain rfl : w' = w := ht.size rfl
      exact renames_go (.precisionRead hn _) hfs
    | _ => exact .unexpected
  | precisionRead hn p =>
    cases terminal with
    | sign s =>
      cases s with
      | closing => exact renames_go (.typeSized hn p none) hfs
      | comma => exact renames_go (.scale hn p) hfs
      | _ => exact .unexpected
    | _ => exact .unexpected
  | scale hn p =>
    cases terminal with
    | integer =>
      obtain rfl : w' = w := ht.size rfl
      exact renames_go (.scaleRead hn p _) hfs
    | _ => exact .unexpected
  | scaleRead hn p q =>
    cases terminal with
    | sign s =>
      cases s with
      | closing => exact renames_go (.typeSized hn p (some q)) hfs
      | _ => exact .unexpected
    | _ => exact .unexpected
  | typeSized hn p q =>
    cases terminal with
    | sign s =>
      cases s with
      | closing => exact renames_castEnd hR hn (some p) q hfs
      | _ => exact .unexpected
    | _ => exact .unexpected
  | itemAlias hx => exact renames_itemAlias hx hfs ht
  | tableName hj =>
    exact renames_nameMove ht fun hn => renames_go (.tableRead hj ⟨hn, .none⟩) hfs
  | tableRead hj htable => exact renames_tableStep hj htable hfs ht
  | tableAlias hj htable =>
    exact renames_nameMove ht fun hn => renames_go (.tableRead hj ⟨htable.name, .some hn⟩) hfs
  | joinWord hx kind outerAllowed => exact renames_joinWord hx kind outerAllowed hfs ht
  | ended e =>
    exact renames_settledMove (renames_settled? ⟨.ended e, hfs⟩) ht
  | «by» c =>
    cases terminal with
    | keyword k =>
      cases k with
      | «by» => exact renames_go (.operand .condition) hfs
      | _ => exact .unexpected
    | _ => exact .unexpected
  | count c => exact renames_count c hfs ht

lemma exists_step {s s' next : State} (hs : s.Renames R s') (ht : Token.Renames R t t')
    (h : step s t = .ok next) : ∃ next', step s' t' = .ok next' ∧ next.Renames R next' := by
  have hmove := renames_step hR hs ht
  rw [h] at hmove
  generalize step s' t' = m at hmove
  cases hmove with
  | ok hnext => exact ⟨_, rfl, hnext⟩

/-! ### Ends and expectations -/

omit hR

lemma renames_finish? {s s' : State} (hs : s.Renames R s') :
    Option.Rel (Select.Renames R) s.finish? s'.finish? := by
  have hsettled := renames_settled? hs
  unfold State.finish?
  generalize s.settled? = r, s'.settled? = r' at hsettled
  cases hsettled with
  | none => exact .none
  | @some a b h =>
    obtain ⟨q, c, fs⟩ := a
    obtain ⟨q', c', fs'⟩ := b
    obtain ⟨hq, -, hfs⟩ := h
    dsimp only at hq hfs
    cases hfs with
    | nil => exact .some hq
    | cons => exact .none

lemma exists_finish? {s s' : State} {q : Select} (hs : s.Renames R s')
    (h : s.finish? = some q) : ∃ q', s'.finish? = some q' ∧ Select.Renames R q q' := by
  have hfinish := renames_finish? hs
  rw [h] at hfinish
  generalize s'.finish? = r at hfinish
  cases hfinish with
  | some hq => exact ⟨_, rfl, hq⟩

/-- Names do not tell what is expected next. -/
lemma renames_expected {p p' : Phase} (hp : p.Renames R p') : p.expected = p'.expected := by
  cases hp <;> rfl

end Parser

end GraphSelect
