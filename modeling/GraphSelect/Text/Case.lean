import GraphSelect.Text.CaseTable

/-!
Lower and upper case of any text.

Each letter is replaced on its own, except that a capital sigma at the end of a word becomes a
final sigma: it does when, looking past ignorable characters, a letter with a case stands before
it and none after it.
-/

namespace GraphSelect.Text

def CaseRun.map? (r : CaseRun) (n : Nat) : Option Nat :=
  if r.first ≤ n ∧ n ≤ r.last ∧ (n - r.first) % r.stride = 0 then
    some (Int.toNat (n + r.shift))
  else none

/-- The other case of a character by table. -/
def otherCase (runs : List CaseRun) (sequences : List (Nat × List Nat)) (c : Char) : List Char :=
  match sequences.lookup c.toNat with
  | some ns => ns.map Char.ofNat
  | none => [((runs.findSome? (·.map? c.toNat)).map Char.ofNat).getD c]

def lowerChar (c : Char) : List Char :=
  if c.toNat < 0x80 then [c.toLower] else otherCase lowerRuns lowerSequences c

def upperChar (c : Char) : List Char :=
  if c.toNat < 0x80 then [c.toUpper] else otherCase upperRuns upperSequences c

def inRanges (ranges : List (Nat × Nat)) (c : Char) : Bool :=
  ranges.any fun r => r.1 ≤ c.toNat && c.toNat ≤ r.2

/-- Whether the first character that counts has a case. -/
def startsCased (cs : List Char) : Bool :=
  match cs.dropWhile (inRanges caseIgnorableRanges) with
  | [] => false
  | c :: _ => inRanges casedRanges c

/-- Lower case of the rest of a text, given the characters before it from right to left. -/
def lowerFrom : List Char → List Char → List Char
  | _, [] => []
  | before, c :: rest =>
    (if c = 'Σ' then [if startsCased before && !startsCased rest then 'ς' else 'σ']
      else lowerChar c) ++ lowerFrom (c :: before) rest

def lower (s : String) : String :=
  String.ofList (lowerFrom [] s.toList)

def upper (s : String) : String :=
  String.ofList (s.toList.flatMap upperChar)

end GraphSelect.Text
