import GraphSelect.Query.Parser.State

/-!
Which of two operators takes the operand between them.

An operator that arrives completes the pending operators that bind at least as tightly, so
operators of one level nest to the left. Comparisons do not nest.
-/

namespace GraphSelect.Parser

/-- How tightly an operator binds. -/
def precedence : Operator → Nat
  | .or => 1
  | .and => 2
  | .not => 3
  | .comparison _ | .like => 4
  | .arithmetic .plus | .arithmetic .minus => 5
  | .arithmetic _ => 6
  | .negate => 7
  | _ => 0

/-- A minus before a number belongs to the number. -/
def applyPrefix : Operator → Node → Node
  | .negate, .literal l =>
    if l.type.isNumeric then .literal l.negate else .apply .negate [.literal l]
  | op, e => .apply op [e]

/-- Completes the pending operators that bind at least as tightly as `level`. -/
def reduce (level : Nat) (e : Node) : List Frame → Node × List Frame
  | .infixed op left :: stack =>
    if level ≤ precedence op then reduce level (.apply op [left, e]) stack
    else (e, .infixed op left :: stack)
  | .prefixed op :: stack =>
    if level ≤ precedence op then reduce level (applyPrefix op e) stack
    else (e, .prefixed op :: stack)
  | stack => (e, stack)

/-- The operand of a comparison, unless it is itself the right side of one. -/
def comparand? (e : Node) (tail : Tail) (stack : List Frame) : Option (Node × List Frame) :=
  if tail = .test then none
  else
    match reduce 5 e stack with
    | (e, .infixed op left :: rest) =>
      if precedence op = 4 then none else some (e, .infixed op left :: rest)
    | r => some r

/-- The infix operator that a sign or word stands for. -/
def infixed? : Terminal → Option Operator
  | .sign .equal => some (.comparison .equal)
  | .sign .unequal | .sign .bangEqual => some (.comparison .notEqual)
  | .sign .less => some (.comparison .less)
  | .sign .greater => some (.comparison .greater)
  | .sign .lessOrEqual => some (.comparison .lessOrEqual)
  | .sign .greaterOrEqual => some (.comparison .greaterOrEqual)
  | .sign .plus => some (.arithmetic .plus)
  | .sign .minus => some (.arithmetic .minus)
  | .sign .star => some (.arithmetic .times)
  | .sign .slash => some (.arithmetic .divide)
  | .sign .percent => some (.arithmetic .modulo)
  | .keyword .like => some .like
  | .keyword .and => some .and
  | .keyword .or => some .or
  | _ => none

end GraphSelect.Parser
