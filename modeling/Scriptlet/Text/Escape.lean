import Scriptlet.Text.Position

namespace Scriptlet.Text

/-!
# Escape sequences

Inside a literal a backslash and a letter stand for one character, and `\u` and four hexadecimal
digits for the character with that code. The first of the four may be a plus sign.
-/

/-- The place and the length of a bad escape sequence, in bytes. -/
structure EscapeError where
  offset : Nat
  length : Nat
  deriving DecidableEq

def escapedChar? : Char → Option Char
  | 'n' => some '\n'
  | 't' => some '\t'
  | 'r' => some '\r'
  | '0' => some '\x00'
  | '\\' => some '\\'
  | '"' => some '"'
  | '\'' => some '\''
  | _ => none

def hexDigit? (c : Char) : Option Nat :=
  if '0' ≤ c ∧ c ≤ '9' then some (c.toNat - '0'.toNat)
  else if 'a' ≤ c ∧ c ≤ 'f' then some (c.toNat - 'a'.toNat + 10)
  else if 'A' ≤ c ∧ c ≤ 'F' then some (c.toNat - 'A'.toNat + 10)
  else none

/-- The number that hexadecimal digits denote. -/
def hexValue? (ds : List Char) : Option Nat :=
  ds.foldlM (fun n c => (hexDigit? c).map (16 * n + ·)) 0

/-- The character that the four characters behind `\u` denote. -/
def codeChar? (a b c d : Char) : Option Char :=
  let digits := if a = '+' then [b, c, d] else [a, b, c, d]
  (hexValue? digits).bind fun n => if n.isValidChar then some (Char.ofNat n) else none

/-- The front of a text that has exactly `n` bytes. -/
def frontOfBytes? : Nat → List Char → Option (List Char)
  | 0, _ => some []
  | _ + 1, [] => none
  | n + 1, c :: s =>
      if c.utf8Size ≤ n + 1 then (frontOfBytes? (n + 1 - c.utf8Size) s).map (c :: ·) else none

/-- The length of a bad `\u` escape with this text behind it: four bytes are looked at where they
end between characters, and otherwise the whole rest. -/
def badCodeLength (rest : List Char) : Nat :=
  2 + byteLength ((frontOfBytes? 4 rest).getD rest)

/-- The denoted text of a literal's content that starts at a byte offset. -/
def unescapeFrom (offset : Nat) : List Char → Except EscapeError (List Char)
  | [] => .ok []
  | ['\\'] => .error ⟨offset, 1⟩
  | '\\' :: 'u' :: a :: b :: c :: d :: s =>
      match codeChar? a b c d with
      | some x => (unescapeFrom (offset + 6) s).map (x :: ·)
      | none => .error ⟨offset, badCodeLength (a :: b :: c :: d :: s)⟩
  | '\\' :: 'u' :: s => .error ⟨offset, badCodeLength s⟩
  | '\\' :: c :: s =>
      match escapedChar? c with
      | some x => (unescapeFrom (offset + 2) s).map (x :: ·)
      | none => .error ⟨offset, 1 + c.utf8Size⟩
  | c :: s => (unescapeFrom (offset + c.utf8Size) s).map (c :: ·)

def unescape (s : List Char) : Except EscapeError (List Char) :=
  unescapeFrom 0 s

end Scriptlet.Text
