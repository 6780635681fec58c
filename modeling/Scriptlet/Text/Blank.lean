namespace Scriptlet.Text

/-!
# Blanks

The characters with the Unicode property `White_Space`, and the operations on texts that look only
at them: cutting blanks off both ends and splitting into words.
-/

/-- The ranges of the property `White_Space`. -/
def blankRanges : List (Nat × Nat) :=
  [(0x9, 0xd), (0x20, 0x20), (0x85, 0x85), (0xa0, 0xa0), (0x1680, 0x1680), (0x2000, 0x200a),
    (0x2028, 0x2029), (0x202f, 0x202f), (0x205f, 0x205f), (0x3000, 0x3000)]

def isBlank (c : Char) : Bool :=
  blankRanges.any fun r => r.1 ≤ c.toNat && c.toNat ≤ r.2

/-- Without the blanks in front. -/
def trimLeft (s : List Char) : List Char :=
  s.dropWhile isBlank

/-- Without the blanks at the end. -/
def trimRight (s : List Char) : List Char :=
  (s.reverse.dropWhile isBlank).reverse

def trim (s : List Char) : List Char :=
  trimRight (trimLeft s)

/-- The maximal runs of characters other than blanks, in order. -/
def words : List Char → List (List Char)
  | [] => []
  | c :: s =>
      if isBlank c then words s
      else (c :: s.takeWhile (!isBlank ·)) :: words (s.dropWhile (!isBlank ·))
termination_by s => s.length
decreasing_by
  · simp
  · have := (List.dropWhile_suffix (!isBlank ·) (l := s)).length_le
    simp
    omega

def isBlankText (s : List Char) : Bool :=
  s.all isBlank

/-- The text without the blanks at its ends. -/
def trimmed (s : String) : String :=
  String.ofList (trim s.toList)

end Scriptlet.Text
