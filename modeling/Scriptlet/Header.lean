import Scriptlet.DataType
import Scriptlet.Text.Blank
import Scriptlet.Text.Search

namespace Scriptlet

/-!
# Headers

The parameters that a scriptlet seems to declare: the text between the first parenthesis and the
next closing one on the same line, cut at its commas. Nothing is parsed, so any such text counts.
-/

/-- An entry of a parameter list: its last word, and its first one if there are two or more. -/
structure Parameter where
  type : Option String
  name : String
  deriving DecidableEq

def Parameter.text (p : Parameter) : String :=
  match p.type with
  | some t => t ++ " " ++ p.name
  | none => p.name

namespace Header

/-- The text up to a closing parenthesis on the same line. -/
def interior? : List Char → Option (List Char)
  | [] => none
  | c :: s =>
      if c = ')' then some []
      else if c = '\n' then none
      else (interior? s).map (c :: ·)

/-- The text in the first pair of parentheses on one line. -/
def parenthesized? : List Char → Option (List Char)
  | [] => none
  | c :: s => (if c = '(' then interior? s else none) <|> parenthesized? s

def entry (s : List Char) : Parameter :=
  match Text.words s with
  | [] => ⟨none, ""⟩
  | [name] => ⟨none, String.ofList name⟩
  | type :: word :: rest => ⟨some (String.ofList type), String.ofList ((word :: rest).getLastD [])⟩

/-- The parameters of a scriptlet. Empty entries count, so that places agree with the commas. -/
def parameters (s : List Char) : List Parameter :=
  match parenthesized? s with
  | none | some [] => []
  | some inside => (Text.split ',' inside).map entry

/-- The type that a word names, in any letter case; other words, and none, mean `object`. -/
def argumentType (word : Option String) : BasicType :=
  match (word.map String.toLower).getD "" with
  | "boolean" | "bool" => .bool
  | "byte" => .byte
  | "int16" | "short" => .short
  | "int" | "int32" => .int
  | "int64" | "long" => .long
  | "single" | "float" => .float
  | "double" => .double
  | "char" => .char
  | "string" => .string
  | _ => .object

end Header

end Scriptlet
