import GraphSelect.Proofs.TreeTokens

/-!
Reading printed expressions.

The tokens that an expression is printed as are read as the same expression, except where a `NOT` is
an operand of an operator that binds more tightly: the printer puts no brackets around it. The
operators before an operand still wait when it has been read, and what stands behind it completes
them.
-/

namespace GraphSelect

/-! ### Loose negations -/

/-- The operators whose operands are read without a `NOT` before them. -/
def Operator.isTight : Operator → Bool
  | .comparison _ | .like | .arithmetic _ | .negate | .isNull | .isNotNull | .within => true
  | _ => false

namespace Node

/-- Whether an expression is a `NOT`. -/
def isNegation : Node → Bool
  | .call c _ => c.operator = .not
  | _ => false

/-- Whether a `NOT` is an operand of an operator that binds more tightly. -/
def hasLooseNot : Node → Bool
  | .call c operands => c.operator.isTight && operands.any isNegation
  | _ => false

end Node

namespace Parser

/-! ### Operands -/

variable {s s' : State} {t : Token} {ts : List Token} {x y e : Node} {f : Frame}
  {fs rest : List Frame} {o : Opening} {q : Select}

lemma run_step {p : Phase} (ht : t.terminal ∈ p.expected) (h : step ⟨p, fs⟩ t = .ok s') :
    run ⟨p, fs⟩ (t :: ts) = run s' ts :=
  run_cons (by rw [advance, if_pos ht, h])

/-- Whether an unfinished construct is an operator. -/
def Frame.isPending : Frame → Bool
  | .infixed _ _ | .prefixed _ => true
  | _ => false

/-- Whether no operator waits for the next operand. -/
def IsOpen (fs : List Frame) : Prop := ∀ f ∈ fs.head?, f.isPending = false

lemma isOpen_cons (h : f.isPending = false) : IsOpen (f :: fs) := by
  rintro _ ⟨⟩
  exact h

lemma reduce_of_isOpen (h : IsOpen fs) (level : Nat) (e : Node) : reduce level e fs = (e, fs) := by
  unfold reduce
  split
  · cases h _ rfl
  · cases h _ rfl
  · rfl

/-- The level up to which the operators around a printed operand leave it as it is. -/
def bound (x : Node) : Nat := if x.isNegation then 3 else 6

lemma bound_of_not (h : x.isNegation = false) : bound x = 6 := by simp [bound, h]

lemma three_le_bound (x : Node) : 3 ≤ bound x := by
  unfold bound
  split <;> decide

/-- Whether a printed operand is read as it is. Its own prefix operators may still wait. -/
def ReadsOperand (x : Node) : Prop :=
  ∀ o fs, (x.isNegation = true → o ≠ .strict) → ∃ y tail fs',
    run ⟨.operand o, fs⟩ x.nested = .ok ⟨.value y tail, fs'⟩ ∧ tail ≠ .test ∧
      ∀ level ≤ bound x, reduce level y fs' = reduce level x fs

/-- A state in which an expression is complete but for its last operators. -/
def Ready (s : State) (e : Node) (fs : List Frame) : Prop :=
  ∃ y tail fs', s = ⟨.value y tail, fs'⟩ ∧ reduce 0 y fs' = (e, fs)

/-- Whether a printed expression is read as it is. -/
def ReadsExpression (x : Node) : Prop :=
  ∀ o fs, o ≠ .strict → IsOpen fs → ∃ s, run ⟨.operand o, fs⟩ x.tokens = .ok s ∧ Ready s x fs

lemma mem_expected_of_mem_operandStarts {terminal : Terminal} (h : terminal ∈ operandStarts)
    (o : Opening) : terminal ∈ (Phase.operand o).expected := by
  cases o <;> simp [Phase.expected, Opening.expected, conditionStarts, h]

lemma run_word (w : String) :
    run ⟨.operand o, fs⟩ (.word w :: ts) = run ⟨.value (column [w]) .name, fs⟩ ts := by
  have hname : Terminal.name ∈ operandStarts := by decide
  refine run_step (mem_expected_of_mem_operandStarts hname o) ?_
  simp [step, operandStep, Token.word, name?, go]

lemma run_literal {l : Literal} (ht : t.terminal ∈ operandStarts)
    (hl : literal? t = some l) :
    run ⟨.operand o, fs⟩ (t :: ts) = run ⟨.value (.literal l) .atom, fs⟩ ts := by
  refine run_step (mem_expected_of_mem_operandStarts ht o) ?_
  obtain ⟨terminal, text⟩ := t
  simp only [operandStarts, List.mem_cons, List.not_mem_nil, or_false] at ht
  rcases ht with rfl | rfl | rfl | rfl | rfl | rfl | rfl | rfl | rfl | rfl | rfl | rfl | rfl <;>
    cases hl <;> rfl

lemma run_minus : run ⟨.operand o, fs⟩ (.ofSign .minus :: ts) =
    run ⟨.operand .strict, .prefixed .negate :: fs⟩ ts :=
  run_step (mem_expected_of_mem_operandStarts (by decide) o) rfl

lemma run_not (ho : o ≠ .strict) : run ⟨.operand o, fs⟩ (.ofKeyword .not :: ts) =
    run ⟨.operand .condition, .prefixed .not :: fs⟩ ts := by
  cases o
  case strict => exact absurd rfl ho
  all_goals exact run_step (by decide) rfl

lemma run_opening : run ⟨.operand o, fs⟩ (.ofSign .opening :: ts) =
    run ⟨.operand .bracket, .bracket :: fs⟩ ts :=
  run_step (mem_expected_of_mem_operandStarts (by decide) o) rfl

lemma run_cast :
    run ⟨.operand o, fs⟩ (.ofKeyword .cast :: .ofSign .opening :: ts) =
      run ⟨.operand .condition, .castOperand :: fs⟩ ts := by
  have hcast : run ⟨.operand o, fs⟩ (.ofKeyword .cast :: .ofSign .opening :: ts) =
      run ⟨.cast, fs⟩ (.ofSign .opening :: ts) :=
    run_step (mem_expected_of_mem_operandStarts (by decide) o) rfl
  exact hcast.trans (run_step (by decide) rfl)

/-- An operand that leaves nothing waiting. -/
lemma readsOperand_of_run (hb : x.isBracketed = false)
    (h : ∀ o fs, ∃ tail, tail ≠ .test ∧ run ⟨.operand o, fs⟩ x.tokens = .ok ⟨.value x tail, fs⟩) :
    ReadsOperand x := by
  intro o fs _
  obtain ⟨tail, htail, hrun⟩ := h o fs
  exact ⟨x, tail, fs, by rwa [Node.nested_of_not hb], htail, fun _ _ => rfl⟩

lemma ReadsOperand.ready (h : ReadsOperand x) (ho : o ≠ .strict) (hfs : IsOpen fs) :
    ∃ s, run ⟨.operand o, fs⟩ x.nested = .ok s ∧ Ready s x fs := by
  obtain ⟨y, tail, fs', hrun, -, hreduce⟩ := h o fs fun _ => ho
  exact ⟨_, hrun, y, tail, fs', rfl, by rw [hreduce 0 (Nat.zero_le _), reduce_of_isOpen hfs]⟩

lemma ReadsOperand.expression (h : ReadsOperand x) (hb : x.isBracketed = false) :
    ReadsExpression x := by
  intro o fs ho hfs
  rw [← Node.nested_of_not hb]
  exact h.ready ho hfs

/-! ### Ends of expressions -/

open Terminal in
/-- The terminals that may follow an entry of some clause, but for names. -/
def entryEnders : List Terminal :=
  [sign .closing, sign .comma, keyword .from, keyword .where, keyword .group, keyword .having,
   keyword .order, keyword .limit, keyword .offset, keyword .join, keyword .inner, keyword .left,
   keyword .right, keyword .full, keyword .cross]

/-- The terminals that end an expression, but for names. -/
def enders : List Terminal :=
  .keyword .as :: .keyword .asc :: .keyword .desc :: entryEnders

/-- A token behind a complete expression is taken by the construct around it. -/
lemma Ready.advance_eq (h : Ready s e fs) (hfs : IsOpen fs) (ht : t.terminal ∈ enders) :
    advance s t = expressionEnd e fs t := by
  obtain ⟨y, tail, fs', rfl, hreduce⟩ := h
  have hexpected : t.terminal ∈ (Phase.value y tail).expected := by
    have hsub : ∀ tail : Tail, ∀ terminal ∈ enders, terminal ∈ tail.expected := by
      rintro (_ | _ | _) <;> decide
    exact hsub tail _ ht
  have hvalue : valueStep y tail fs' t = expressionEnd y fs' t := by
    obtain ⟨terminal, text⟩ := t
    simp only [enders, entryEnders, List.mem_cons, List.not_mem_nil, or_false] at ht
    rcases ht with rfl | rfl | rfl | rfl | rfl | rfl | rfl | rfl | rfl | rfl | rfl | rfl | rfl |
      rfl | rfl | rfl | rfl | rfl <;> rfl
  rw [advance, if_pos hexpected]
  change valueStep y tail fs' t = _
  rw [hvalue]
  unfold expressionEnd
  rw [hreduce, reduce_of_isOpen hfs]

lemma Ready.run_cons (h : Ready s e fs) (hfs : IsOpen fs) (ht : t.terminal ∈ enders)
    (hend : expressionEnd e fs t = .ok s') : run s (t :: ts) = run s' ts :=
  Parser.run_cons ((h.advance_eq hfs ht).trans hend)

/-- An operand in brackets leaves nothing waiting. -/
lemma ReadsExpression.operand (h : ReadsExpression x) (hb : x.isBracketed = true) :
    ReadsOperand x := by
  intro o fs _
  obtain ⟨s, hrun, hready⟩ := h .bracket (.bracket :: fs) (by decide) (isOpen_cons rfl)
  refine ⟨x, .atom, fs, ?_, by decide, fun _ _ => rfl⟩
  rw [Node.nested_of_isBracketed hb, inBrackets, run_opening, run_append hrun]
  exact hready.run_cons (isOpen_cons rfl) (by decide) rfl

/-! ### Operators -/

/-- The operand of an operator that binds more tightly than `NOT`. -/
lemma comparand?_of_reads {tail : Tail} (htail : tail ≠ .test) {y : Node} {fs' : List Frame}
    (hreduce : ∀ level ≤ bound x, reduce level y fs' = reduce level x fs)
    (hx : x.isNegation = false) (hfs : IsOpen fs) : comparand? y tail fs' = some (x, fs) := by
  have h5 : reduce 5 y fs' = (x, fs) := by
    rw [hreduce 5 (by rw [bound_of_not hx]; decide), reduce_of_isOpen hfs]
  rw [comparand?, if_neg htail, h5]
  split
  · next heq =>
    obtain ⟨-, rfl⟩ := Prod.mk.inj heq
    cases hfs _ rfl
  · rfl

/-- The token of an operator between two operands. -/
lemma exists_infixToken {op : Operator} (hop : op.isInfix = true) : ∃ t, op.tokens = [t] ∧
    infixed? t.terminal = some op ∧ t.terminal ∈ operandFollows := by
  cases op with
  | comparison c => cases c <;> exact ⟨_, rfl, rfl, by decide⟩
  | arithmetic a => cases a <;> exact ⟨_, rfl, rfl, by decide⟩
  | and | or | like => exact ⟨_, rfl, rfl, by decide⟩
  | _ => cases hop

lemma precedence_of_isInfix {op : Operator} (hop : op.isInfix = true) :
    precedence op ≤ 6 ∧ (op.isTight = true ↔ 4 ≤ precedence op) := by
  cases op with
  | arithmetic a => cases a <;> decide
  | comparison c => simp [precedence, Operator.isTight]
  | and | or | like => decide
  | _ => cases hop

lemma mem_expected_of_mem_operandFollows {terminal : Terminal} (h : terminal ∈ operandFollows)
    {tail : Tail} (htail : tail ≠ .test) (y : Node) :
    terminal ∈ (Phase.value y tail).expected := by
  cases tail with
  | name => exact List.mem_append_right _ h
  | atom => exact h
  | test => exact absurd rfl htail

/-- An operator behind its left operand waits for the right one. -/
lemma infixStep_of_reads {op : Operator} (hop : op.isInfix = true) {tail : Tail}
    (htail : tail ≠ .test) {x' : Node} {fs' : List Frame}
    (hreduce : ∀ level ≤ bound x, reduce level x' fs' = reduce level x fs)
    (hx : op.isTight = true → x.isNegation = false) (hfs : IsOpen fs) :
    infixStep op x' tail fs' =
      go (.operand (if op.isTight then .strict else .condition)) (.infixed op x :: fs) := by
  obtain ⟨hle, htight⟩ := precedence_of_isInfix hop
  have hcomplete (hbound : precedence op ≤ bound x) : reduce (precedence op) x' fs' = (x, fs) := by
    rw [hreduce _ hbound, reduce_of_isOpen hfs]
  unfold infixStep
  split
  · next h4 =>
    have ht := htight.2 h4.ge
    simp only [comparand?_of_reads htail hreduce (hx ht) hfs, ht, if_true]
  · split
    · next h =>
      have ht : op.isTight = false := by
        rw [← Bool.not_eq_true, htight]
        omega
      simp [hcomplete (by have := three_le_bound x; omega), ht]
    · have ht := htight.2 (by omega)
      simp [hcomplete (by rw [bound_of_not (hx ht)]; exact hle), ht]

lemma readsExpression_infixed {op : Operator} (hop : op.isInfix = true) (hx : ReadsOperand x)
    (hy : ReadsOperand y)
    (hloose : op.isTight = true → x.isNegation = false ∧ y.isNegation = false) :
    ReadsExpression (.apply op [x, y]) := by
  intro o fs ho hfs
  obtain ⟨x', tail, fs₁, hrun, htail, hreduce⟩ := hx o fs fun _ => ho
  obtain ⟨t, hname, hinfix, hfollows⟩ := exists_infixToken hop
  have hadvance : advance ⟨.value x' tail, fs₁⟩ t =
      .ok ⟨.operand (if op.isTight then .strict else .condition), .infixed op x :: fs⟩ := by
    rw [advance, if_pos (mem_expected_of_mem_operandFollows hfollows htail x')]
    change valueStep x' tail fs₁ t = _
    have hvalue : valueStep x' tail fs₁ t = infixStep op x' tail fs₁ := by
      simp only [valueStep, hinfix]
    rw [hvalue, infixStep_of_reads hop htail hreduce (fun h => (hloose h).1) hfs]
    rfl
  have ho' : y.isNegation = true →
      (if op.isTight then Opening.strict else .condition) ≠ .strict := by
    cases ht : op.isTight with
    | true => simp [(hloose ht).2]
    | false => simp
  obtain ⟨y', tail', fs₂, hrun', -, hreduce'⟩ := hy _ (.infixed op x :: fs) ho'
  have htokens : (Node.apply op [x, y]).tokens = x.nested ++ t :: y.nested := by
    rw [Node.apply, Node.tokens_between (Operator.form_of_isInfix hop), hname,
      List.singleton_append]
  refine ⟨_, ?_, y', tail', fs₂, rfl, ?_⟩
  · rw [htokens, run_append hrun, run_cons hadvance, hrun']
  · have hwait : reduce 0 y (.infixed op x :: fs) = reduce 0 (.apply op [x, y]) fs := by
      rw [reduce, if_pos (Nat.zero_le _)]
    rw [hreduce' 0 (Nat.zero_le _), hwait, reduce_of_isOpen hfs]

/-- A prefix operator is applied as it is, except a minus to a number. -/
lemma applyPrefix_eq {op : Operator} (h : op = .negate → x.isNumber = false) :
    applyPrefix op x = .apply op [x] := by
  unfold applyPrefix
  split
  · exact if_neg (by simpa [Node.isNumber] using h rfl)
  · rfl

lemma bound_negation : bound (.apply .not [x]) = 3 := by
  simp [bound, Node.apply, Node.isNegation]

lemma readsOperand_not (hx : ReadsOperand x) : ReadsOperand (.apply .not [x]) := by
  intro o fs ho
  obtain ⟨y, tail, fs', hrun, htail, hreduce⟩ := hx .condition (.prefixed .not :: fs) (by simp)
  have htokens : (Node.apply .not [x]).nested = .ofKeyword .not :: x.nested := by
    rw [Node.nested_of_not rfl, Node.apply, Node.tokens_before rfl]
    rfl
  refine ⟨y, tail, fs', ?_, htail, fun level hlevel => ?_⟩
  · rw [htokens, run_not (ho (by simp [Node.apply, Node.isNegation])), hrun]
  · rw [bound_negation] at hlevel
    have hwait : reduce level x (.prefixed .not :: fs) = reduce level (.apply .not [x]) fs := by
      rw [reduce, if_pos (show level ≤ precedence .not from hlevel), applyPrefix_eq (by simp)]
    rw [hreduce level (hlevel.trans (three_le_bound x)), hwait]

lemma readsOperand_negate (hx : ReadsOperand x) (hn : x.isNegation = false)
    (hnumber : x.isNumber = false) : ReadsOperand (.apply .negate [x]) := by
  intro o fs ho
  obtain ⟨y, tail, fs', hrun, htail, hreduce⟩ :=
    hx .strict (.prefixed .negate :: fs) (by simp [hn])
  have htokens : (Node.apply .negate [x]).nested = .ofSign .minus :: x.nested := by
    rw [Node.nested_of_not rfl, Node.apply, Node.tokens_before rfl]
    rfl
  refine ⟨y, tail, fs', ?_, htail, fun level hlevel => ?_⟩
  · rw [htokens, run_minus, hrun]
  · have hlevel6 : level ≤ 6 := by
      rwa [bound_of_not rfl] at hlevel
    have hwait : reduce level x (.prefixed .negate :: fs) =
        reduce level (.apply .negate [x]) fs := by
      rw [reduce, if_pos (show level ≤ precedence .negate from hlevel6.trans (by decide)),
        applyPrefix_eq fun _ => hnumber]
    rw [hreduce level (by rwa [bound_of_not hn]), hwait]

lemma ofExact_digitsOf (n : Nat) :
    Literal.ofExact (String.ofList (Text.digitsOf n)) = .ofNat n := by
  have hdigits : ∀ c ∈ Text.digitsOf n, Text.isDigit c = true :=
    fun c hc => Text.isDigit_of_mem_digitsOf hc
  rw [Literal.ofExact_of_digits hdigits (Text.digitsOf_ne_nil n), Text.natOfDigits_digitsOf]

lemma literal?_ofNat (n : Nat) : literal? (.ofNat n) = some (.ofNat n) := by
  simp [literal?, Token.ofNat, ofExact_digitsOf]

lemma literal?_ofChars (s : String) : literal? (.ofChars s) = some (.ofChars s) := by
  simp [literal?, Token.ofChars, unquoted, Text.singleQuoted, Text.undouble_double]

lemma negate_ofNat {n : Int} (hn : n < 0) : applyPrefix .negate (.literal (.ofNat n.natAbs)) =
    .literal ⟨.int n, (Value.int n).spelledType⟩ := by
  have hnat : -(n.natAbs : Int) = n := by omega
  have hnumeric : (Literal.ofNat n.natAbs).type.isNumeric = true := by
    unfold Literal.ofNat
    dsimp only
    split <;> rfl
  rw [applyPrefix, if_pos hnumeric, Literal.negate, Literal.ofNat, Value.negate, Scalar.negate,
    hnat, Value.spelledType]

/-- A number below zero is read as the negation of a number. -/
lemma readsOperand_below {n : Int} (hn : n < 0) :
    ReadsOperand (.literal ⟨.int n, (Value.int n).spelledType⟩) := by
  intro o fs _
  refine ⟨.literal (.ofNat n.natAbs), .atom, .prefixed .negate :: fs, ?_, by decide,
    fun level hlevel => ?_⟩
  · have htokens : (Node.literal ⟨.int n, (Value.int n).spelledType⟩).nested =
        [.ofSign .minus, .ofNat n.natAbs] := by
      rw [Node.nested_of_not rfl, Node.tokens]
      exact if_pos hn
    rw [htokens, run_minus,
      run_literal (show Terminal.integer ∈ operandStarts by decide) (literal?_ofNat _), run_nil]
  · have hlevel6 : level ≤ 6 := by
      rwa [bound_of_not rfl] at hlevel
    rw [reduce, if_pos (show level ≤ precedence .negate from hlevel6.trans (by decide)),
      negate_ofNat hn]

/-- A plain constant is printed as one token, unless it is below zero. -/
lemma exists_literalToken {l : Literal} (htype : l.type = l.value.spelledType)
    (hplain : l.isPlain = true) : (∃ n < 0, l = ⟨.int n, (Value.int n).spelledType⟩) ∨
      ∃ t, l.value.tokens = [t] ∧ t.terminal ∈ operandStarts ∧ literal? t = some l := by
  obtain ⟨value, type⟩ := l
  obtain rfl : type = value.spelledType := htype
  unfold Literal.isPlain at hplain
  split at hplain
  · next n hn =>
    subst hn
    by_cases hneg : n < 0
    · exact .inl ⟨n, hneg, rfl⟩
    · have hnat : (n.natAbs : Int) = n := by omega
      refine .inr ⟨.ofNat n.natAbs, if_neg hneg,
        show Terminal.integer ∈ operandStarts by decide, ?_⟩
      rw [literal?_ofNat, Literal.ofNat, hnat, Value.spelledType, hnat]
  · next s hs =>
    subst hs
    exact .inr ⟨.ofChars s, rfl, show Terminal.string ∈ operandStarts by decide,
      literal?_ofChars s⟩
  · next b hb =>
    subst hb
    cases b <;> exact .inr ⟨_, rfl, by decide, rfl⟩
  · next hnull =>
    subst hnull
    exact .inr ⟨_, rfl, by decide, rfl⟩
  · cases hplain

lemma readsOperand_literal {l : Literal} (h : l.IsParsed True) : ReadsOperand (.literal l) := by
  rcases exists_literalToken h.type_eq (h.isPlain trivial) with ⟨n, hn, rfl⟩ | ⟨t, hname, ht, hl⟩
  · exact readsOperand_below hn
  · refine readsOperand_of_run rfl fun o fs => ⟨.atom, by decide, ?_⟩
    rw [Node.tokens, hname, run_literal ht hl, run_nil]

/-! ### Tests -/

/-- A word behind an operand takes it as it is. -/
lemma exists_run_comparand (hx : ReadsOperand x) (hn : x.isNegation = false) (ho : o ≠ .strict)
    (hfs : IsOpen fs) {k : Keyword} {p : Node → Phase} (hk : .keyword k ∈ operandFollows)
    (hp : ∀ y tail fs', comparand? y tail fs' = some (x, fs) →
      valueStep y tail fs' (.ofKeyword k) = go (p x) fs) :
    run ⟨.operand o, fs⟩ (x.nested ++ .ofKeyword k :: ts) = run ⟨p x, fs⟩ ts := by
  obtain ⟨y, tail, fs', hrun, htail, hreduce⟩ := hx o fs fun _ => ho
  rw [run_append hrun]
  refine run_step (mem_expected_of_mem_operandFollows hk htail y) ?_
  exact hp y tail fs' (comparand?_of_reads htail hreduce hn hfs)

lemma ready_value (tail : Tail) (hfs : IsOpen fs) : Ready ⟨.value x tail, fs⟩ x fs :=
  ⟨x, tail, fs, rfl, reduce_of_isOpen hfs 0 x⟩

lemma valueStep_is {y : Node} {tail : Tail} {fs' : List Frame}
    (h : comparand? y tail fs' = some (x, fs)) :
    valueStep y tail fs' (.ofKeyword .is) = go (.is x) fs := by
  simp [valueStep, Token.ofKeyword, infixed?, h]

lemma valueStep_in {y : Node} {tail : Tail} {fs' : List Frame}
    (h : comparand? y tail fs' = some (x, fs)) :
    valueStep y tail fs' (.ofKeyword .in) = go (.within x) fs := by
  simp [valueStep, Token.ofKeyword, infixed?, h]

lemma readsExpression_test {op : Operator} (hop : op.isTest = true) (hx : ReadsOperand x)
    (hn : x.isNegation = false) : ReadsExpression (.apply op [x]) := by
  intro o fs ho hfs
  have his (ts : List Token) : run ⟨.operand o, fs⟩ (x.nested ++ .ofKeyword .is :: ts) =
      run ⟨.is x, fs⟩ ts :=
    exists_run_comparand hx hn ho hfs (by decide) fun _ _ _ => valueStep_is
  have htokens : (Node.apply op [x]).tokens = x.nested ++ op.tokens :=
    Node.tokens_after (Operator.form_of_isTest hop)
  refine ⟨⟨.value (.apply op [x]) .test, fs⟩, ?_, ready_value .test hfs⟩
  rw [htokens]
  cases op with
  | isNull => exact (his _).trans (run_step (by simp [Phase.expected, Token.ofKeyword]) rfl)
  | isNotNull =>
    have hnot (ts : List Token) : run ⟨.is x, fs⟩ (.ofKeyword .not :: ts) = run ⟨.isNot x, fs⟩ ts :=
      run_step (by simp [Phase.expected, Token.ofKeyword]) rfl
    refine (his _).trans ((hnot _).trans ?_)
    exact run_step (by simp [Phase.expected, Token.ofKeyword]) rfl
  | _ => cases hop

/-! ### Lists -/

/-- Entries with commas between them are read one after the other. Each of them is read from a state
that `Begins`, with the entries before it, and leaves one that `Ends`. -/
lemma exists_run_listed {α : Type} {toks : α → List Token} {Begins Ends : List α → State → Prop}
    {xs : List α}
    (hentry : ∀ x ∈ xs, ∀ read s, Begins read s →
      ∃ s', run s (toks x) = .ok s' ∧ Ends (read ++ [x]) s')
    (hcomma : ∀ read s, Ends read s →
      ∃ s', advance s (.ofSign .comma) = .ok s' ∧ Begins read s')
    (hne : xs ≠ []) {read : List α} (hs : Begins read s) :
    ∃ s', run s (listed (xs.map toks)) = .ok s' ∧ Ends (read ++ xs) s' := by
  induction xs generalizing read s with
  | nil => exact absurd rfl hne
  | cons x xs ih =>
    obtain ⟨s₁, hrun, hends⟩ := hentry x List.mem_cons_self read s hs
    cases xs with
    | nil => exact ⟨s₁, by simpa [listed] using hrun, hends⟩
    | cons y xs =>
      obtain ⟨s₂, hadvance, hbegins⟩ := hcomma _ _ hends
      obtain ⟨s₃, hrun', hends'⟩ :=
        ih (fun z hz => hentry z (List.mem_cons_of_mem _ hz)) (List.cons_ne_nil _ _) hbegins
      refine ⟨s₃, ?_, by simpa using hends'⟩
      rw [List.map_cons, List.map_cons, listed_cons_cons, run_append hrun, run_cons hadvance]
      exact hrun'

/-- The members of a list, or the arguments of a function, up to the last one. -/
lemma exists_run_members (frame : List Node → Frame) (fs : List Frame)
    (hframe : ∀ read, (frame read).isPending = false)
    (hcomma : ∀ x read, expressionEnd x (frame read :: fs) (.ofSign .comma) =
      go (.operand .condition) (frame (read ++ [x]) :: fs))
    {xs : List Node} (hxs : ∀ x ∈ xs, ReadsExpression x) (hne : xs ≠ []) (ho : o ≠ .strict) :
    ∃ s x read, run ⟨.operand o, frame [] :: fs⟩ (listed (xs.map Node.tokens)) = .ok s ∧
      Ready s x (frame read :: fs) ∧ read ++ [x] = xs := by
  have hopen (read : List Node) : IsOpen (frame read :: fs) := isOpen_cons (hframe read)
  let Begins (read : List Node) (s : State) : Prop :=
    ∃ o ≠ Opening.strict, s = ⟨.operand o, frame read :: fs⟩
  let Ends (read : List Node) (s : State) : Prop :=
    ∃ init x, Ready s x (frame init :: fs) ∧ init ++ [x] = read
  have hentry : ∀ x ∈ xs, ∀ read s, Begins read s →
      ∃ s', run s x.tokens = .ok s' ∧ Ends (read ++ [x]) s' := by
    rintro x hx read _ ⟨o, ho, rfl⟩
    obtain ⟨s, hrun, hready⟩ := hxs x hx o _ ho (hopen read)
    exact ⟨s, hrun, read, x, hready, rfl⟩
  have hnext : ∀ read s, Ends read s →
      ∃ s', advance s (.ofSign .comma) = .ok s' ∧ Begins read s' := by
    rintro _ s ⟨read, x, hready, rfl⟩
    exact ⟨_, (hready.advance_eq (hopen read) (by decide)).trans (hcomma x read), .condition,
      by decide, rfl⟩
  obtain ⟨s, hrun, read, x, hready, hread⟩ :=
    exists_run_listed hentry hnext hne (show Begins [] _ from ⟨o, ho, rfl⟩)
  exact ⟨s, x, read, hrun, hready, hread⟩

lemma readsExpression_within (hx : ReadsOperand x) (hn : x.isNegation = false) {xs : List Node}
    (hxs : ∀ y ∈ xs, ReadsExpression y) (hne : xs ≠ []) :
    ReadsExpression (.apply .within [x, .list xs]) := by
  intro o fs ho hfs
  have hcondition : Opening.condition ≠ .strict := by decide
  obtain ⟨s, y, read, hrun, hready, hread⟩ :=
    exists_run_members (.members x) fs (fun _ => rfl) (fun _ _ => rfl) hxs hne hcondition
  have htokens : (Node.apply .within [x, .list xs]).tokens = x.nested ++ .ofKeyword .in ::
      .ofSign .opening :: (listed (xs.map Node.tokens) ++ [.ofSign .closing]) := by
    rw [Node.apply, Node.tokens_within rfl, inBrackets]
  have hopening (ts : List Token) : run ⟨.within x, fs⟩ (.ofSign .opening :: ts) =
      run ⟨.operand .condition, .members x [] :: fs⟩ ts :=
    run_step (by simp [Phase.expected, Token.ofSign]) rfl
  refine ⟨⟨.value (.apply .within [x, .list xs]) .test, fs⟩, ?_, ready_value .test hfs⟩
  rw [htokens,
    exists_run_comparand hx hn ho hfs (p := .within) (by decide) fun _ _ _ => valueStep_in,
    hopening, run_append hrun, hready.run_cons (isOpen_cons rfl) (by decide) rfl, hread]
  rfl

/-! ### Functions -/

lemma name_ofFunctionName (name : String) :
    (Operator.ofFunctionName name).name = Text.upper name := by
  unfold Operator.ofFunctionName
  dsimp only
  split
  · next h => simpa [Operator.name] using List.find?_some h
  · rfl

/-- The name of a function is printed in capitals, which is the name of the same function. -/
lemma tokens_functionCall {name : String} (hname : isPlainWord name.toList = true) (distinct : Bool)
    (xs : List Node) : (functionCall name distinct xs).tokens = .word (Text.upper name) ::
      inBrackets (distinctTokens distinct ++ listed (xs.map Node.tokens)) := by
  have hplain := Node.hasPlainWords_functionCall hname distinct xs
  obtain ⟨hform, hname, -⟩ := Node.function_cases (c := ⟨.ofFunctionName name, distinct, none⟩)
    rfl hplain
  rw [functionCall, Node.tokens_function hform, hname, name_ofFunctionName]
  rfl

lemma functionCall_upper {name : String} (hname : isPlainWord name.toList = true) (distinct : Bool)
    (xs : List Node) :
    functionCall (Text.upper name) distinct xs = functionCall name distinct xs := by
  simp only [functionCall, Operator.ofFunctionName, upper_upper hname]

lemma run_call (name : String) (distinct : Bool) :
    run ⟨.operand o, fs⟩ (.word name :: .ofSign .opening :: (distinctTokens distinct ++ ts)) =
      run ⟨.operand (if distinct then .distinct else .arguments),
        .arguments name distinct [] :: fs⟩ ts := by
  have hopening : run ⟨.value (column [name]) .name, fs⟩
      (.ofSign .opening :: (distinctTokens distinct ++ ts)) =
      run ⟨.operand .arguments, .arguments name false [] :: fs⟩ (distinctTokens distinct ++ ts) :=
    run_step (by simp [Phase.expected, Tail.expected, nameFollows, Token.ofSign]) rfl
  rw [run_word, hopening]
  cases distinct with
  | false => rfl
  | true => exact run_step (by decide) rfl

lemma isBracketed_functionCall (name : String) (distinct : Bool) (xs : List Node) :
    (functionCall name distinct xs).isBracketed = false := by
  unfold functionCall Operator.ofFunctionName
  dsimp only
  split <;> rfl

/-- A function is read as it is if what stands in its brackets is. -/
lemma readsOperand_functionCall {name : String} (hname : isPlainWord name.toList = true)
    (distinct : Bool) {xs : List Node}
    (hrun : ∀ o ∈ [Opening.arguments, .distinct], ∀ n d fs,
      run ⟨.operand o, .arguments n d [] :: fs⟩
        (listed (xs.map Node.tokens) ++ [.ofSign .closing]) =
          .ok ⟨.value (functionCall n d xs) .atom, fs⟩) :
    ReadsOperand (functionCall name distinct xs) := by
  refine readsOperand_of_run (isBracketed_functionCall _ _ _) fun o fs => ⟨.atom, by decide, ?_⟩
  have ho : (if distinct then Opening.distinct else .arguments) ∈
      [Opening.arguments, .distinct] := by
    cases distinct <;> decide
  rw [tokens_functionCall hname, inBrackets, List.append_assoc, run_call, hrun _ ho,
    functionCall_upper hname]

lemma readsOperand_function {name : String} (hname : isPlainWord name.toList = true)
    (distinct : Bool) {xs : List Node} (hxs : ∀ x ∈ xs, ReadsExpression x) :
    ReadsOperand (functionCall name distinct xs) := by
  refine readsOperand_functionCall hname distinct fun o ho n d fs => ?_
  cases xs with
  | nil =>
    have hclosing : Token.terminal (.ofSign .closing) ∈ (Phase.operand o).expected := by
      simp only [List.mem_cons, List.not_mem_nil, or_false] at ho
      rcases ho with rfl | rfl <;> decide
    refine run_step hclosing ?_
    simp only [List.mem_cons, List.not_mem_nil, or_false] at ho
    rcases ho with rfl | rfl <;> rfl
  | cons x xs =>
    have hstrict : o ≠ .strict := by
      rintro rfl
      simp at ho
    obtain ⟨s, y, read, hrun, hready, hread⟩ := exists_run_members (.arguments n d) fs
      (fun _ => rfl) (fun _ _ => rfl) hxs (List.cons_ne_nil _ _) hstrict
    rw [run_append hrun, hready.run_cons (isOpen_cons rfl) (by decide) rfl, hread]
    rfl

lemma readsOperand_functionOfAll {name : String} (hname : isPlainWord name.toList = true)
    (distinct : Bool) : ReadsOperand (functionCall name distinct [star]) := by
  refine readsOperand_functionCall hname distinct fun o ho n d fs => ?_
  have hclosing : run ⟨.starArgument, .arguments n d [star] :: fs⟩ [.ofSign .closing] =
      .ok ⟨.value (functionCall n d [star]) .atom, fs⟩ := run_step (by decide) rfl
  refine Eq.trans ?_ hclosing
  simp only [List.mem_cons, List.not_mem_nil, or_false] at ho
  rcases ho with rfl | rfl <;> exact run_step (by decide) rfl

/-! ### Casts and columns -/

lemma nameToken_of_isPlainWord {name : String} (h : isPlainWord name.toList = true) :
    nameToken name = .word name := by
  refine if_neg ?_
  rintro rfl
  exact absurd h (by decide)

lemma nameToken_star : nameToken "*" = .ofSign .star := if_pos rfl

lemma readsOperand_column {names : List String} (h : names.length = 1 ∨ names.length = 2)
    (hw : ∀ name ∈ names, isPlainWord name.toList = true) : ReadsOperand (column names) := by
  refine readsOperand_of_run rfl fun o fs => ⟨.name, by decide, ?_⟩
  match names, h with
  | [a], _ =>
    obtain ⟨ha, -⟩ := List.forall_mem_cons.1 hw
    have htokens : (column [a]).tokens = [.word a] := by
      simp [column, Node.tokens, Identifier.tokens, nameToken_of_isPlainWord ha]
    rw [htokens, run_word, run_nil]
  | [a, b], _ =>
    obtain ⟨ha, hb⟩ := List.forall_mem_cons.1 hw
    have htokens : (column [a, b]).tokens = [.word a, .ofSign .dot, .word b] := by
      simp [column, Node.tokens, Identifier.tokens, nameToken_of_isPlainWord ha,
        nameToken_of_isPlainWord (hb b List.mem_cons_self)]
    have hdot : run ⟨.value (column [a]) .name, fs⟩ [.ofSign .dot, .word b] =
        run ⟨.qualifier a (atItemStart fs), fs⟩ [.word b] :=
      run_step (by simp [Phase.expected, Tail.expected, nameFollows, Token.ofSign]) rfl
    rw [htokens, run_word, hdot]
    refine run_step (t := .word b) ?_ ?_ <;> cases atItemStart fs
    · simp [Phase.expected, anyName, Token.word]
    · simp [Phase.expected, anyName, Token.word]
    · simp [step, Token.word, name?, go]
    · simp [step, Token.word, name?, go]

lemma lookup_name {t : TypeName} (h : t ≠ .null) : TypeName.lookup t.name = some t := by
  have hall : ∀ t ∈ TypeName.all, t ≠ .null → TypeName.lookup t.name = some t := by decide
  exact hall t (by cases t <;> decide) h

/-- The type of a cast, up to the bracket that closes the cast. -/
lemma run_typeSpec {t : TypeSpec} (ht : t.IsSpelled) (hnull : t.type ≠ .null) :
    run ⟨.typeName, .castTarget x :: fs⟩ (t.tokens ++ [.ofSign .closing]) =
      .ok ⟨.value (.apply .cast [x, .typeSpec t]) .atom, fs⟩ := by
  have hend (p s : Option Int) : castEnd t.type.name p s (.castTarget x :: fs) =
      .ok ⟨.value (.apply .cast [x, .typeSpec ⟨t.type, p, s⟩]) .atom, fs⟩ := by
    simp [castEnd, lookup_name hnull, go]
  have hname (ts : List Token) : run ⟨.typeName, .castTarget x :: fs⟩ (t.type.token :: ts) =
      run ⟨.typeNamed t.type.name, .castTarget x :: fs⟩ ts := by
    rw [TypeName.token, if_neg hnull]
    exact run_step (show Terminal.name ∈ [Terminal.name] by decide) (by simp [step, Token.word, go])
  have hnat (n : Nat) : intTokens n = [.ofNat n] := by simp [intTokens]
  have hopening (ts : List Token) : run ⟨.typeNamed t.type.name, .castTarget x :: fs⟩
      (.ofSign .opening :: ts) = run ⟨.precision t.type.name, .castTarget x :: fs⟩ ts :=
    run_step (by simp [Phase.expected, Token.ofSign]) rfl
  have hprecision (p : Nat) (ts : List Token) : run ⟨.precision t.type.name, .castTarget x :: fs⟩
      (.ofNat p :: ts) = run ⟨.precisionRead t.type.name p, .castTarget x :: fs⟩ ts :=
    run_step (by simp [Phase.expected, Token.ofNat])
      (by simp [step, Token.ofNat, go, Text.natOfDigits_digitsOf])
  have hclosing (p : Int) (s : Option Int) : run ⟨.typeSized t.type.name p s, .castTarget x :: fs⟩
      [.ofSign .closing] = .ok ⟨.value (.apply .cast [x, .typeSpec ⟨t.type, p, s⟩]) .atom, fs⟩ :=
    run_step (by simp [Phase.expected, Token.ofSign]) (hend p s)
  cases ht with
  | bare type =>
    exact (hname _).trans (run_step (by simp [Phase.expected, Token.ofSign]) (hend none none))
  | sized type p =>
    have htokens : TypeSpec.tokens ⟨type, some p, none⟩ =
        [type.token, .ofSign .opening, .ofNat p, .ofSign .closing] := by
      simp [TypeSpec.tokens, inBrackets, hnat]
    rw [htokens, List.cons_append, hname, List.cons_append, hopening, List.cons_append, hprecision]
    exact (run_step (by simp [Phase.expected, Token.ofSign]) rfl).trans (hclosing p none)
  | scaled type p s =>
    have htokens : TypeSpec.tokens ⟨type, some p, some s⟩ = [type.token, .ofSign .opening, .ofNat p,
        .ofSign .comma, .ofNat s, .ofSign .closing] := by
      simp [TypeSpec.tokens, inBrackets, listed, hnat]
    have hcomma (ts : List Token) : run ⟨.precisionRead type.name p, .castTarget x :: fs⟩
        (.ofSign .comma :: ts) = run ⟨.scale type.name p, .castTarget x :: fs⟩ ts :=
      run_step (by simp [Phase.expected, Token.ofSign]) rfl
    have hscale (ts : List Token) : run ⟨.scale type.name p, .castTarget x :: fs⟩
        (.ofNat s :: ts) = run ⟨.scaleRead type.name p s, .castTarget x :: fs⟩ ts :=
      run_step (by simp [Phase.expected, Token.ofNat])
        (by simp [step, Token.ofNat, go, Text.natOfDigits_digitsOf])
    rw [htokens, List.cons_append, hname, List.cons_append, hopening, List.cons_append, hprecision,
      List.cons_append, hcomma, List.cons_append, hscale]
    exact (run_step (by simp [Phase.expected, Token.ofSign]) rfl).trans (hclosing p (some s))

lemma readsOperand_cast (hx : ReadsOperand x) {t : TypeSpec}
    (ht : t.IsSpelled) (hnull : t.type ≠ .null) : ReadsOperand (.apply .cast [x, .typeSpec t]) := by
  refine readsOperand_of_run rfl fun o fs => ⟨.atom, by decide, ?_⟩
  have hopen : IsOpen (.castOperand :: fs) := isOpen_cons rfl
  have hcondition : Opening.condition ≠ .strict := by decide
  obtain ⟨s, hrun, hready⟩ := hx.ready hcondition hopen
  have htokens : (Node.apply .cast [x, .typeSpec t]).tokens = .ofKeyword .cast ::
      .ofSign .opening :: (x.nested ++ .ofKeyword .as :: (t.tokens ++ [.ofSign .closing])) := by
    rw [Node.apply, Node.tokens_cast rfl, inBrackets, List.append_assoc, List.cons_append]
  rw [htokens, run_cast, run_append hrun, hready.run_cons hopen (by decide) rfl,
    run_typeSpec ht hnull]

end Parser

end GraphSelect
