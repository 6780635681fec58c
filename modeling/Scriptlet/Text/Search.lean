namespace Scriptlet.Text

/-!
# Search

Where one text occurs in another, replacing its occurrences, and cutting a text at a character.
-/

/-- The least position at which `t` occurs. -/
def indexOf? (t : List Char) : List Char → Option Nat
  | [] => if t.isEmpty then some 0 else none
  | c :: s => if t.isPrefixOf (c :: s) then some 0 else (indexOf? t s).map (· + 1)

/-- The text with every occurrence of `t` replaced, from the left and without overlaps; `skip`
counts the characters left of an occurrence that was replaced before. -/
def replaceFrom (t new : List Char) : Nat → List Char → List Char
  | _, [] => []
  | skip + 1, _ :: s => replaceFrom t new skip s
  | 0, c :: s =>
      if t.isPrefixOf (c :: s) then new ++ replaceFrom t new (t.length - 1) s
      else c :: replaceFrom t new 0 s

/-- Every occurrence of a text that is not empty, replaced. -/
def replaceAll (t new s : List Char) : List Char :=
  replaceFrom t new 0 s

/-- The pieces of a text between the occurrences of a character; there is always a first one. -/
def split (separator : Char) : List Char → List (List Char)
  | [] => [[]]
  | c :: s =>
      if c = separator then [] :: split separator s
      else
        match split separator s with
        | piece :: pieces => (c :: piece) :: pieces
        | [] => [[c]]

end Scriptlet.Text
