import Scriptlet.Text.Blank
import Scriptlet.Decimal.Reader
import Scriptlet.Value

namespace Scriptlet

/-!
# Reading values

The text of a value of a known type. Program code that reads a text and a caller that passes an
argument as text get the same value.
-/

inductive ReadError where
  /-- The text is not in the syntax of the type. -/
  | format
  /-- The text is well formed, but its number is outside the range of the type. -/
  | overflow
  deriving DecidableEq

/-- An integer between two bounds: blanks around an optional sign and decimal digits. -/
def readInteger (lo hi : Int) (s : List Char) : Except ReadError Int :=
  let (negative, digits) := readSign (Text.trim s)
  if digits ≠ [] ∧ digits.all Char.isDigit then
    let magnitude : Int := Numeral.digitsValue digits
    let n := if negative then -magnitude else magnitude
    if lo ≤ n ∧ n ≤ hi then .ok n else .error .overflow
  else .error .format

/-- `true` or `false` in any letter case, with blanks around it. -/
def readBool (s : List Char) : Except ReadError Bool :=
  let word := Text.trim s
  if sameLetters word "true".toList then .ok true
  else if sameLetters word "false".toList then .ok false
  else .error .format

/-- A text of exactly one character. -/
def readChar : List Char → Except ReadError Char
  | [c] => .ok c
  | _ => .error .format

def readReal (f : Binary.Format) (s : List Char) : Except ReadError Binary.Datum :=
  match readNumber f (Text.trim s) with
  | some d => .ok d
  | none => .error .format

def readValue (s : String) : BasicType → Except ReadError Value
  | .bool => (readBool s.toList).map .bool
  | .byte => (readInteger 0 255 s.toList).map fun n => .byte (UInt8.ofNat n.toNat)
  | .short => (readInteger (-32768) 32767 s.toList).map fun n => .short (Int16.ofInt n)
  | .int => (readInteger (-2147483648) 2147483647 s.toList).map fun n => .int (Int32.ofInt n)
  | .long =>
      (readInteger (-9223372036854775808) 9223372036854775807 s.toList).map fun n =>
        .long (Int64.ofInt n)
  | .float => (readReal Binary.single s.toList).map fun d => .float (Binary.toFloat32 d)
  | .double => (readReal Binary.double s.toList).map fun d => .double (Binary.toFloat d)
  | .char => (readChar s.toList).map .char
  | .string | .object => .ok (.string s)

end Scriptlet
