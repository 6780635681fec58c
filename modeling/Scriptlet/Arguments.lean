import Scriptlet.Header
import Scriptlet.Value.Reader

namespace Scriptlet

/-!
# Arguments

What a caller supplies with a scriptlet: the names, texts and types of its arguments, each a list
that can be absent. A text is read as a value of the type at its place.
-/

structure Arguments where
  names : Option (List String)
  values : Option (List String)
  types : Option (List BasicType)

namespace Arguments

def none : Arguments :=
  ⟨.none, .none, .none⟩

def ofLists (names values : List String) (types : List BasicType) : Arguments :=
  ⟨some names, some values, some types⟩

/-- The values of the parameters of a header. -/
def ofParameters (ps : List Parameter) (values : List String) : Arguments :=
  ofLists (ps.map Parameter.name) values (ps.map fun p => Header.argumentType p.type)

/-- The values that were given for a header; a header without parameters has no arguments at all. -/
def forHeader (ps : List Parameter) (values : List String) : Arguments :=
  if ps.isEmpty then none else ofParameters ps values

def isAbsent (a : Arguments) : Bool :=
  a.names.isNone && a.values.isNone && a.types.isNone

/-- The number of values. -/
def count (a : Arguments) : Nat :=
  (a.values.getD []).length

end Arguments

/-- Why an argument does not become a value of its parameter. -/
inductive CoercionFailure where
  | format (text : String) (target : BasicType)
  | overflow (text : String) (target : BasicType)
  /-- The value has no implicit conversion to the type of the parameter. -/
  | mismatch (expected : DataType) (found : String)
  deriving DecidableEq

def CoercionFailure.message : CoercionFailure → String
  | format text target => "'" ++ text ++ "' is not in a valid format for " ++ target.name
  | overflow text target => "'" ++ text ++ "' is outside the range of " ++ target.name
  | mismatch expected found =>
      "cannot convert from '" ++ found ++ "' to '" ++ expected.keyword ++ "'"

/-- The failure to read a text as a value of a type. -/
def CoercionFailure.ofRead (text : String) (target : BasicType) : ReadError → CoercionFailure
  | .format => format text target
  | .overflow => overflow text target

/-- A failure at a place, which counts from zero, with the name that was given there. -/
structure CoercionError where
  position : Nat
  name : Option String
  failure : CoercionFailure
  deriving DecidableEq

def CoercionError.message (e : CoercionError) : String :=
  let name :=
    match e.name with
    | some n => " ('" ++ n ++ "')"
    | none => ""
  "invalid value for parameter " ++ e.position.repr ++ name ++ ": " ++ e.failure.message

namespace Arguments

/-- The name at a place, without the blanks around it, unless it is blank. -/
def nameAt? (names : List String) (position : Nat) : Option String :=
  match names[position]? with
  | some n => if Text.isBlankText n.toList then .none else some (Text.trimmed n)
  | .none => .none

/-- Reads texts as values of types, from a position on. -/
def coerceFrom (names : List String) (position : Nat) :
    List String → List BasicType → Except CoercionError (List Value)
  | text :: texts, t :: ts =>
      match readValue text t with
      | .error e => .error ⟨position, nameAt? names position, CoercionFailure.ofRead text t e⟩
      | .ok v => (coerceFrom names (position + 1) texts ts).map (v :: ·)
  | _, _ => .ok []

def coerce (values : List String) (types : List BasicType) (names : List String) :
    Except CoercionError (List Value) :=
  coerceFrom names 0 values types

end Arguments

end Scriptlet
