import GraphSelect.Text.Digit

/-!
The words and signs of a query text, and how each begins a text.

A terminal is matched against the start of a text and takes as much of it as its class allows.
The letters of names and keywords are `a` to `z` in either case, and four more that have one of
them as their other case: the long s, the Kelvin sign, and the i with and without a dot. Digits of
any script count in numbers, but not in names.
-/

namespace GraphSelect

open Text

inductive Keyword where
  | select | distinct | as | from | join | on | inner | left | right | full | outer | cross
  | where | group | by | having | order | asc | desc | limit | offset | or | and | not
  | is | null | like | in | cast | true | false
  deriving DecidableEq, Inhabited

namespace Keyword

def all : List Keyword :=
  [.select, .distinct, .as, .from, .join, .on, .inner, .left, .right, .full, .outer, .cross,
   .where, .group, .by, .having, .order, .asc, .desc, .limit, .offset, .or, .and, .not,
   .is, .null, .like, .in, .cast, .true, .false]

def letters : Keyword → List Char
  | .select => ['s', 'e', 'l', 'e', 'c', 't']
  | .distinct => ['d', 'i', 's', 't', 'i', 'n', 'c', 't']
  | .as => ['a', 's']
  | .from => ['f', 'r', 'o', 'm']
  | .join => ['j', 'o', 'i', 'n']
  | .on => ['o', 'n']
  | .inner => ['i', 'n', 'n', 'e', 'r']
  | .left => ['l', 'e', 'f', 't']
  | .right => ['r', 'i', 'g', 'h', 't']
  | .full => ['f', 'u', 'l', 'l']
  | .outer => ['o', 'u', 't', 'e', 'r']
  | .cross => ['c', 'r', 'o', 's', 's']
  | .where => ['w', 'h', 'e', 'r', 'e']
  | .group => ['g', 'r', 'o', 'u', 'p']
  | .by => ['b', 'y']
  | .having => ['h', 'a', 'v', 'i', 'n', 'g']
  | .order => ['o', 'r', 'd', 'e', 'r']
  | .asc => ['a', 's', 'c']
  | .desc => ['d', 'e', 's', 'c']
  | .limit => ['l', 'i', 'm', 'i', 't']
  | .offset => ['o', 'f', 'f', 's', 'e', 't']
  | .or => ['o', 'r']
  | .and => ['a', 'n', 'd']
  | .not => ['n', 'o', 't']
  | .is => ['i', 's']
  | .null => ['n', 'u', 'l', 'l']
  | .like => ['l', 'i', 'k', 'e']
  | .in => ['i', 'n']
  | .cast => ['c', 'a', 's', 't']
  | .true => ['t', 'r', 'u', 'e']
  | .false => ['f', 'a', 'l', 's', 'e']

end Keyword

inductive Sign where
  | star | dot | comma | opening | closing | plus | minus | slash | percent
  | equal | unequal | bangEqual | less | greater | lessOrEqual | greaterOrEqual
  deriving DecidableEq, Inhabited

namespace Sign

def all : List Sign :=
  [.unequal, .bangEqual, .lessOrEqual, .greaterOrEqual, .star, .dot, .comma, .opening, .closing,
   .plus, .minus, .slash, .percent, .equal, .less, .greater]

def chars : Sign → List Char
  | .star => ['*']
  | .dot => ['.']
  | .comma => [',']
  | .opening => ['(']
  | .closing => [')']
  | .plus => ['+']
  | .minus => ['-']
  | .slash => ['/']
  | .percent => ['%']
  | .equal => ['=']
  | .unequal => ['<', '>']
  | .bangEqual => ['!', '=']
  | .less => ['<']
  | .greater => ['>']
  | .lessOrEqual => ['<', '=']
  | .greaterOrEqual => ['>', '=']

end Sign

inductive Terminal where
  | approximate
  | decimal
  | name
  | quotedName
  | string
  | integer
  | sign (s : Sign)
  | keyword (k : Keyword)
  deriving DecidableEq, Inhabited

structure Token where
  terminal : Terminal
  text : List Char
  deriving DecidableEq, Inhabited

/-- A letter as the letter of `a` to `z` that it counts as. -/
def foldLetter (c : Char) : Char :=
  if c = '\u017f' then 's'
  else if c = '\u212a' then 'k'
  else if c = '\u0130' ∨ c = '\u0131' then 'i'
  else c.toLower

def isNameStart (c : Char) : Bool :=
  let l := foldLetter c
  ('a' ≤ l && l ≤ 'z') || c = '_'

def isNameRest (c : Char) : Bool :=
  isNameStart c || ('0' ≤ c && c ≤ '9') || c = '$'

/-- Whether a character may stand between tokens. -/
def isGap (c : Char) : Bool :=
  c = ' ' || c = '\t' || c = '\x0c' || c = '\r' || c = '\n'

/-- The keyword that a word spells. -/
def keyword? (word : List Char) : Option Keyword :=
  Keyword.all.find? (·.letters = word.map foldLetter)

namespace Terminal

/-- The length of a quoted text from behind its opening quote. A quote closes it unless it can be
read as one of a pair, which it can only if another quote closes the text later. -/
def quotedLength? (quote : Char) : List Char → Option Nat
  | [] => none
  | [c] => if c = quote then some 1 else none
  | c :: d :: cs =>
    if c ≠ quote then (quotedLength? quote (d :: cs)).map (· + 1)
    else if d ≠ quote then some 1
    else some (((quotedLength? quote cs).map (· + 2)).getD 1)

/-- The length of a quoted text of at least one character from behind its opening quote. -/
def filledLength? (quote : Char) : List Char → Option Nat
  | c :: d :: cs =>
    if c ≠ quote then (quotedLength? quote (d :: cs)).map (· + 1)
    else if d = quote then (quotedLength? quote cs).map (· + 2)
    else none
  | _ => none

def quoted? (length? : List Char → Option Nat) (quote : Char) : List Char → Option (List Char)
  | c :: cs => if c = quote then (length? cs).map fun n => c :: cs.take n else none
  | [] => none

/-- Digits with an optional point among them: what stands before the exponent of a number. -/
def mantissa (cs : List Char) : List Char :=
  cs.takeWhile isDigit ++
    match cs.dropWhile isDigit with
    | '.' :: r => '.' :: r.takeWhile isDigit
    | _ => []

/-- A sign and digits. -/
def power? (cs : List Char) : Option (List Char) :=
  let sign := match cs with
    | '+' :: _ => ['+']
    | '-' :: _ => ['-']
    | _ => []
  let digits := (cs.drop sign.length).takeWhile isDigit
  if digits.isEmpty then none else some (sign ++ digits)

def approximate? (cs : List Char) : Option (List Char) :=
  let m := mantissa cs
  if m.any isDigit then
    match cs.drop m.length with
    | e :: r => if e = 'e' ∨ e = 'E' then (power? r).map fun p => m ++ e :: p else none
    | [] => none
  else none

def decimal? (cs : List Char) : Option (List Char) :=
  let m := mantissa cs
  if m.any isDigit && m.contains '.' then some m else none

def integer? (cs : List Char) : Option (List Char) :=
  let digits := cs.takeWhile isDigit
  if digits.isEmpty then none else some digits

def name? : List Char → Option (List Char)
  | c :: cs => if isNameStart c then some (c :: cs.takeWhile isNameRest) else none
  | [] => none

def spelled? (same : Char → Char) (letters cs : List Char) : Option (List Char) :=
  if (cs.take letters.length).map same = letters then some (cs.take letters.length) else none

/-- What a terminal matches at the start of a text. -/
def match? (t : Terminal) (cs : List Char) : Option (List Char) :=
  match t with
  | .approximate => approximate? cs
  | .decimal => decimal? cs
  | .name => name? cs
  | .quotedName => quoted? (filledLength? '"') '"' cs
  | .string => quoted? (quotedLength? '\'') '\'' cs
  | .integer => integer? cs
  | .sign s => spelled? id s.chars cs
  | .keyword k => spelled? foldLetter k.letters cs

/-- The order in which terminals are tried. -/
def all : List Terminal :=
  [.approximate, .decimal, .name, .quotedName, .string, .integer] ++ Sign.all.map .sign ++
    Keyword.all.map .keyword

end Terminal

namespace Token

/-- A name that spells an expected keyword is that keyword. -/
def classify (expected : List Terminal) (t : Token) : Token :=
  match t.terminal, keyword? t.text with
  | .name, some k => if expected.contains (.keyword k) then { t with terminal := .keyword k } else t
  | _, _ => t

/-- The first token of a text, given which terminals are expected. -/
def first? (expected : List Terminal) (cs : List Char) : Option Token :=
  ((Terminal.all.filter expected.contains).findSome? fun t => (t.match? cs).map (⟨t, ·⟩)).map
    (classify expected)

/-- Whether any terminal at all matches at the start of a text. -/
def startsAny (cs : List Char) : Bool :=
  Terminal.all.any fun t => (t.match? cs).isSome

end Token

end GraphSelect
