import GraphSelect.Text.Digit

/-!
Why a query has no traversal.

Every failure is of one of twelve kinds. A kind has a message with places for its arguments, and
the failure names the innermost clause in which it arose, if it arose in one.
-/

namespace GraphSelect

inductive FaultKind where
  | operandsEmpty
  | operandsMoreThanTwo
  | operandCountMismatch
  | unsupportedOperandType
  | unsupportedLiteralExpression
  | unknownOperator
  | unknownIdentifier
  | unknownTable
  | ambiguousIdentifier
  | offsetNotSupported
  | columnNotGrouped
  | joinNotSupported
  deriving DecidableEq, Inhabited

inductive FaultArgument where
  | text (s : String)
  | number (n : Int)
  deriving DecidableEq, Inhabited

def FaultArgument.plain : FaultArgument → String
  | .text s => s
  | .number n => Text.ofInt n

/-- A piece of a message: fixed text, or the place of an argument. -/
inductive Piece where
  | words (s : String)
  | argument (index : Nat)
  deriving DecidableEq, Inhabited

namespace FaultKind

def template : FaultKind → List Piece
  | .operandsEmpty => [.words "Operator has no operands, one or two are required."]
  | .operandsMoreThanTwo => [.words "Operator has more than two operands, which is not supported."]
  | .operandCountMismatch =>
    [.words "Operator '", .argument 0, .words "' expects ", .argument 1,
     .words " operand(s) but received ", .argument 2, .words "."]
  | .unsupportedOperandType => [.words "Operand type '", .argument 0, .words "' is not supported."]
  | .unsupportedLiteralExpression =>
    [.words "Selecting literal expressions without a FROM clause is not supported."]
  | .unknownOperator =>
    [.words "Unknown operator '", .argument 0, .words "', it has no traversal translation."]
  | .unknownIdentifier => [.words "Unknown identifier '", .argument 0, .words "'."]
  | .unknownTable => [.words "Unknown table '", .argument 0, .words "'."]
  | .ambiguousIdentifier => [.words "Identifier '", .argument 0, .words "' is ambiguous."]
  | .offsetNotSupported => [.words "OFFSET is not supported."]
  | .columnNotGrouped =>
    [.words "Column '", .argument 0,
     .words "' must appear in the GROUP BY clause or be used in an aggregate function."]
  | .joinNotSupported => [.words "Join is not supported: ", .argument 0, .words "."]

/-- Whether a kind stands for a feature of SQL that has no traversal by choice. -/
def isUnsupported : FaultKind → Bool
  | .unsupportedOperandType | .unsupportedLiteralExpression
  | .offsetNotSupported | .joinNotSupported => true
  | _ => false

end FaultKind

structure Fault where
  kind : FaultKind
  arguments : List FaultArgument
  clause : Option String
  deriving DecidableEq, Inhabited

namespace Fault

def ofTexts (kind : FaultKind) (texts : List String) : Fault :=
  ⟨kind, texts.map .text, none⟩

def operandsEmpty : Fault := ofTexts .operandsEmpty []

def operandsMoreThanTwo : Fault := ofTexts .operandsMoreThanTwo []

def operandCountMismatch (operator : String) (expected received : Nat) : Fault :=
  ⟨.operandCountMismatch, [.text operator, .number expected, .number received], none⟩

def unsupportedOperandType (type : String) : Fault := ofTexts .unsupportedOperandType [type]

def unsupportedLiteralExpression : Fault := ofTexts .unsupportedLiteralExpression []

def unknownOperator (operator : String) : Fault := ofTexts .unknownOperator [operator]

def unknownIdentifier (identifier : String) : Fault := ofTexts .unknownIdentifier [identifier]

def unknownTable (table : String) : Fault := ofTexts .unknownTable [table]

def ambiguousIdentifier (identifier : String) : Fault := ofTexts .ambiguousIdentifier [identifier]

def offsetNotSupported : Fault := ofTexts .offsetNotSupported []

def columnNotGrouped (column : String) : Fault := ofTexts .columnNotGrouped [column]

def joinNotSupported (reason : String) : Fault := ofTexts .joinNotSupported [reason]

/-- Names the clause around a failure. A clause named before was further inside and stays. -/
def within (f : Fault) (clause : String) : Fault :=
  { f with clause := f.clause.or (some clause) }

/-- The message of a kind with the arguments in their places. -/
def plainMessage (f : Fault) : String :=
  String.join (f.kind.template.map fun
    | .words s => s
    | .argument i => (f.arguments[i]?.map FaultArgument.plain).getD "")

def message (f : Fault) : String :=
  match f.clause.filter (· ≠ "") with
  | some clause => f.plainMessage ++ " (in " ++ clause ++ " clause)"
  | none => f.plainMessage

end Fault

/-- Why work on a query tree stops: the query has no traversal, or the tree is not one of a query,
since a call in it lacks an operand. -/
inductive Failure where
  | fault (f : Fault)
  | missingOperand
  deriving DecidableEq, Inhabited

namespace Failure

/-- Names the clause around a failure. -/
def within (f : Failure) (clause : String) : Failure :=
  match f with
  | .fault f => .fault (f.within clause)
  | .missingOperand => .missingOperand

end Failure

abbrev Outcome := Except Failure

namespace Outcome

def fault {α : Type} (f : Fault) : Outcome α := .error (.fault f)

section

variable {α β : Type}

@[simp] theorem pure_eq (a : α) : (pure a : Outcome α) = .ok a := rfl
@[simp] theorem ok_bind (a : α) (f : α → Outcome β) : (Except.ok a >>= f : Outcome β) = f a := rfl
@[simp] theorem error_bind (e : Failure) (f : α → Outcome β) :
    (Except.error e >>= f : Outcome β) = .error e := rfl
@[simp] theorem map_ok (f : α → β) (a : α) : (Except.ok a : Outcome α).map f = .ok (f a) := rfl
@[simp] theorem map_error (f : α → β) (e : Failure) :
    (Except.error e : Outcome α).map f = .error e := rfl
@[simp] theorem fault_ne_ok (f : Fault) (a : α) : (fault f : Outcome α) ≠ .ok a := nofun
@[simp] theorem fault_bind (e : Fault) (f : α → Outcome β) :
    (fault e >>= f : Outcome β) = fault e := rfl

theorem bind_eq_ok {x : Outcome α} {f : α → Outcome β} {b : β} :
    x >>= f = .ok b ↔ ∃ a, x = .ok a ∧ f a = .ok b := by
  cases x <;> simp

theorem map_eq_ok {x : Outcome α} {f : α → β} {b : β} :
    x.map f = .ok b ↔ ∃ a, x = .ok a ∧ f a = b := by
  cases x <;> simp

/-- What follows matters only where the work before it succeeds. -/
theorem bind_congr_ok {x : Outcome α} {f g : α → Outcome β} (h : ∀ a, x = .ok a → f a = g a) :
    x >>= f = x >>= g := by
  cases x with
  | error e => rfl
  | ok a => exact h a rfl

theorem eq_ok_of_toOption {x : Outcome α} {a : α} (h : x.toOption = some a) : x = .ok a := by
  cases x with
  | error e => cases h
  | ok b => exact congrArg _ (Option.some.inj h)

end

/-- Work done inside a clause. -/
def inClause {α : Type} (clause : String) : Outcome α → Outcome α
  | .ok a => .ok a
  | .error f => .error (f.within clause)

end Outcome

end GraphSelect
