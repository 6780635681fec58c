import Scriptlet.Text.CaseData

namespace Scriptlet.Text

/-!
# Letter case

Full case mapping of texts. One character may become several (`ß` becomes `SS`), and a capital sigma
at the end of a word becomes the final form `ς`.
-/

/-- The mapping of one character by a list of runs. -/
def mapRuns (runs : List CaseRun) (c : Char) : Char :=
  match runs.find? (·.contains c.toNat) with
  | some r => Char.ofNat (c.toNat + r.offset).toNat
  | none => c

/-- The mapping of one character by expansions where there is one, else by runs. -/
def mapCase (expansions : List (Nat × List Nat)) (runs : List CaseRun) (c : Char) : List Char :=
  match expansions.lookup c.toNat with
  | some cs => cs.map Char.ofNat
  | none => [mapRuns runs c]

def upperChar (c : Char) : List Char :=
  mapCase upperExpansions upperRuns c

def lowerChar (c : Char) : List Char :=
  mapCase lowerExpansions lowerRuns c

def inRanges (ranges : List (Nat × Nat)) (c : Char) : Bool :=
  ranges.any fun r => r.1 ≤ c.toNat && c.toNat ≤ r.2

/-- Whether a letter with case comes first once case-ignorable characters are passed over. -/
def meetsCased (s : List Char) : Bool :=
  match s.dropWhile (inRanges caseIgnorableRanges) with
  | c :: _ => inRanges casedRanges c
  | [] => false

/-- The lower case of a text, given the reversed text before it. -/
def lowerAfter (before : List Char) : List Char → List Char
  | [] => []
  | c :: s =>
      let mapped :=
        if c = 'Σ' then [if meetsCased before && !meetsCased s then 'ς' else 'σ'] else lowerChar c
      mapped ++ lowerAfter (c :: before) s

def upper (s : List Char) : List Char :=
  s.flatMap upperChar

def lower (s : List Char) : List Char :=
  lowerAfter [] s

end Scriptlet.Text
