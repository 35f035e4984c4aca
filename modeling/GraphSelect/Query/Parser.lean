import GraphSelect.Query.Parser.Step

/-!
Reading a query from its text, token by token.

The text is read once from left to right. At each token the state of the parser says which
terminals are expected; the first of them that matches is the token, and it takes the state on.
-/

namespace GraphSelect

/-- A place in a text, both counted from one. -/
structure Position where
  line : Nat
  column : Nat
  deriving DecidableEq, Inhabited

namespace Position

def start : Position := ⟨1, 1⟩

def after (p : Position) (c : Char) : Position :=
  if c = '\n' then ⟨p.line + 1, 1⟩ else ⟨p.line, p.column + 1⟩

end Position

/-- Where a text stops being a query: at its end, at a token, or at a character that begins no
token. -/
inductive Unexpected where
  | ending
  | token
  | character
  deriving DecidableEq, Inhabited

inductive SyntaxError where
  | unexpected (what : Unexpected) (at_ : Position)
  | unknownType (name : String)
  deriving DecidableEq, Inhabited

namespace Parser

/-- Reads the rest of a text. The last token began at `last`, the rest begins at `pos`, and its
first `skip` characters belong to the last token. -/
def read (s : State) (last pos : Position) : Nat → List Char → Except SyntaxError Select
  | _, [] =>
    match s.finish? with
    | some q => .ok q
    | none => .error (.unexpected .ending last)
  | skip + 1, c :: cs => read s last (pos.after c) skip cs
  | 0, c :: cs =>
    if isGap c then read s last (pos.after c) 0 cs
    else
      match Token.first? s.phase.expected (c :: cs) with
      | none =>
        .error (.unexpected (if Token.startsAny (c :: cs) then .token else .character) pos)
      | some t =>
        match step s t with
        | .ok next => read next pos (pos.after c) (t.text.length - 1) cs
        | .error .unexpected => .error (.unexpected .token pos)
        | .error (.unknownType name) => .error (.unknownType name)

/-- The tree of a query text. -/
def parse (text : String) : Except SyntaxError Select :=
  read .initial .start .start 0 text.toList

end Parser

end GraphSelect
