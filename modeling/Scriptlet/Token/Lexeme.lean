import Scriptlet.Token

namespace Scriptlet

/-!
# Lexemes

How a source text is cut into lexemes. A lexeme is the longest front of the text that one of the
patterns accepts: blanks, comments, numbers, texts and characters in quotes, words and marks. What
no pattern accepts is one unexpected character.
-/

inductive Pattern where
  | blank
  | comment (closed : Bool)
  | decimalInt
  | hexInt
  | real
  | string (closed : Bool)
  | char (closed : Bool)
  | word
  | mark (m : Mark)
  | unexpected
  deriving DecidableEq

namespace Lexeme

def isSpace (c : Char) : Bool :=
  c == ' ' || c == '\t' || c == '\r' || c == '\n' || c == '\x0c'

def isWordStart (c : Char) : Bool :=
  c.isAlpha || c == '_'

def isWordPart (c : Char) : Bool :=
  c.isAlphanum || c == '_'

def isHexDigit (c : Char) : Bool :=
  c.isDigit || ('a' ≤ c && c ≤ 'f') || ('A' ≤ c && c ≤ 'F')

/-- The number of characters at the front that satisfy a test. -/
def runLength (p : Char → Bool) (s : List Char) : Nat :=
  (s.takeWhile p).length

/-- One if the first character satisfies a test, else zero. -/
def optional (p : Char → Bool) : List Char → Nat
  | c :: _ => if p c then 1 else 0
  | [] => 0

def isLongSuffix (c : Char) : Bool :=
  c == 'l' || c == 'L'

def isRealSuffix (c : Char) : Bool :=
  c == 'f' || c == 'F' || c == 'd' || c == 'D'

def digitRun (s : List Char) : Nat :=
  runLength (fun c => c.isDigit || c == '_') s

/-- The length of a point, a digit and what continues the row of digits; zero if there is none. -/
def fraction : List Char → Nat
  | '.' :: d :: s => if d.isDigit then 2 + digitRun s else 0
  | _ => 0

/-- The length of an exponent with at least one digit; zero if there is none. -/
def exponent : List Char → Nat
  | c :: s =>
      if c == 'e' || c == 'E' then
        let sign := optional (fun c => c == '+' || c == '-') s
        let digits := runLength Char.isDigit (s.drop sign)
        if digits = 0 then 0 else 1 + sign + digits
      else 0
  | [] => 0

/-- The exponent and the suffix behind the digits of a real number. -/
def realTail (s : List Char) : Nat :=
  let e := exponent s
  e + optional isRealSuffix (s.drop e)

/-- The length of what continues `0` to a hexadecimal integer. -/
def hexTail? : List Char → Option Nat
  | x :: d :: s =>
      if (x == 'x' || x == 'X') && isHexDigit d then
        let digits := runLength (fun c => isHexDigit c || c == '_') s
        some (2 + digits + optional isLongSuffix (s.drop digits))
      else none
  | _ => none

/-- A decimal number behind its first digit. -/
def decimal (s : List Char) : Pattern × Nat :=
  let whole := digitRun s
  let rest := s.drop whole
  let point := fraction rest
  let behind := rest.drop point
  if 0 < point ∨ 0 < exponent behind ∨ 0 < optional isRealSuffix behind then
    (.real, whole + point + realTail behind)
  else (.decimalInt, whole + optional isLongSuffix rest)

/-- A number behind its first digit. -/
def number (first : Char) (s : List Char) : Pattern × Nat :=
  if first = '0' then
    match hexTail? s with
    | some n => (.hexInt, n)
    | none => decimal s
  else decimal s

/-- The length of the content of a literal in quotes: up to the quote, the end of the line or a
backslash with nothing to escape. -/
def content (quote : Char) : List Char → Nat
  | [] => 0
  | [c] => if c = quote ∨ c = '\n' ∨ c = '\r' ∨ c = '\\' then 0 else 1
  | c :: d :: s =>
      if c = quote ∨ c = '\n' ∨ c = '\r' then 0
      else if c = '\\' then
        if d = '\n' then 0 else 2 + content quote s
      else 1 + content quote (d :: s)

/-- A literal behind its opening quote: the length, and whether it is closed. -/
def quoted (quote : Char) (s : List Char) : Bool × Nat :=
  let n := content quote s
  if (s.drop n).head? = some quote then (true, n + 1) else (false, n)

/-- The length of a block comment behind its opening, and whether it is closed. -/
def blockComment : List Char → Bool × Nat
  | [] => (false, 0)
  | '*' :: '/' :: _ => (true, 2)
  | _ :: s =>
      let (closed, n) := blockComment s
      (closed, n + 1)

/-- The pattern of the lexeme that begins with `c`, and how many characters behind `c` belong to
it. -/
def scan (c : Char) (s : List Char) : Pattern × Nat :=
  if isSpace c then (.blank, runLength isSpace s)
  else if c.isDigit then number c s
  else if isWordStart c then (.word, runLength isWordPart s)
  else if c = '"' then
    let (closed, n) := quoted '"' s
    (.string closed, n)
  else if c = '\'' then
    let (closed, n) := quoted '\'' s
    (.char closed, n)
  else
    match c, s with
    | '/', '/' :: t => (.comment true, 1 + runLength (· != '\n') t)
    | '/', '*' :: t =>
        let (closed, n) := blockComment t
        (.comment closed, 1 + n)
    | _, _ =>
        let point := fraction (c :: s)
        if 0 < point then (.real, point - 1 + realTail ((c :: s).drop point))
        else
          match Mark.longest? (c :: s) with
          | some m => (.mark m, m.spelling.length - 1)
          | none => (.unexpected, 0)

end Lexeme

end Scriptlet
