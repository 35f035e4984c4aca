import GraphSelect.Text.PrintableTable

/-!
The ways a text is quoted: with quotes doubled, with quotes and backslashes escaped, and displayed
so that every character can be seen.
-/

namespace GraphSelect.Text

/-- Every `quote` written twice. -/
def double (quote : Char) : List Char → List Char
  | [] => []
  | c :: cs => if c = quote then quote :: quote :: double quote cs else c :: double quote cs

/-- Every pair of quotes written once. -/
def undouble (quote : Char) : List Char → List Char
  | c :: d :: cs =>
    if c = quote ∧ d = quote then quote :: undouble quote cs else c :: undouble quote (d :: cs)
  | cs => cs

theorem undouble_double (quote : Char) (cs : List Char) :
    undouble quote (double quote cs) = cs := by
  induction cs with
  | nil => rfl
  | cons c cs ih =>
    by_cases h : c = quote
    · simp [double, undouble, h, ih]
    · cases hd : double quote cs with
      | nil => simp_all [double, undouble]
      | cons d ds => simp_all [double, undouble]

/-- A text between single quotes, with the quotes inside doubled. -/
def singleQuoted (s : String) : String :=
  String.ofList ('\'' :: double '\'' s.toList ++ ['\''])

def escapeChar : Char → List Char
  | '\\' => ['\\', '\\']
  | '\'' => ['\\', '\'']
  | c => [c]

/-- A text between single quotes, with a backslash before the quotes and backslashes inside. -/
def escaped (s : String) : String :=
  String.ofList ('\'' :: s.toList.flatMap escapeChar ++ ['\''])

def isPrintable (c : Char) : Bool :=
  if c.toNat < 0x80 then 0x20 ≤ c.toNat && c.toNat < 0x7F
  else !unprintableRanges.any fun r => r.1 ≤ c.toNat && c.toNat ≤ r.2

/-- A number in at least `width` lower-case hexadecimal digits. -/
def hex (width n : Nat) : List Char :=
  let digits := Nat.toDigits 16 n
  List.replicate (width - digits.length) '0' ++ digits

def displayChar (quote c : Char) : List Char :=
  if c = quote ∨ c = '\\' then ['\\', c]
  else if c = '\t' then ['\\', 't']
  else if c = '\n' then ['\\', 'n']
  else if c = '\r' then ['\\', 'r']
  else if isPrintable c then [c]
  else if c.toNat < 0x100 then '\\' :: 'x' :: hex 2 c.toNat
  else if c.toNat < 0x10000 then '\\' :: 'u' :: hex 4 c.toNat
  else '\\' :: 'U' :: hex 8 c.toNat

/-- A text with every character visible, between single quotes unless only those occur in it. -/
def displayed (s : String) : String :=
  let cs := s.toList
  let quote := if cs.contains '\'' && !cs.contains '"' then '"' else '\''
  String.ofList (quote :: cs.flatMap (displayChar quote) ++ [quote])

end GraphSelect.Text
