import Scriptlet.Code.Module

namespace Scriptlet

/-!
# The built-in catalogue

The names of the namespace `System`, their constants and methods, and the members of values.
Overloads of a method are listed with the most specific first.
-/

/-- What a name without a value stands for: something that has members. -/
inductive Owner where
  /-- A class of the program, by its place. -/
  | cls (index : Nat)
  | type (t : DataType)
  | math
  | convert
  | console
  deriving DecidableEq

/-- A method of the catalogue. Instance methods do not list their receiver. -/
structure Overload where
  params : List DataType
  result : DataType
  routine : Code.Routine
  deriving DecidableEq

namespace Catalogue

open Code (Literal)

/-- The types that have a name in the namespace besides exceptions. -/
def namedTypes : List DataType :=
  [.bool, .byte, .short, .int, .long, .float, .double, .char, .string, .object]

/-- What a name of the namespace `System` stands for. -/
def owner? (name : String) : Option Owner :=
  match name with
  | "Math" => some .math
  | "Convert" => some .convert
  | "Console" => some .console
  | _ =>
      match namedTypes.find? (·.shortName == name) with
      | some t => some (.type t)
      | none => (ExceptionClass.ofName? name).map fun c => .type (.exception c)

def greatest? : DataType → Option Literal
  | .byte => some (.byte 255)
  | .short => some (.short 32767)
  | .int => some (.int 2147483647)
  | .long => some (.long 9223372036854775807)
  | .float => some (.float (Float32.ofBits 0x7F7FFFFF))
  | .double => some (.double (Float.ofBits 0x7FEFFFFFFFFFFFFF))
  | .char => some (.char '\uffff')
  | _ => none

def least? : DataType → Option Literal
  | .byte => some (.byte 0)
  | .short => some (.short (-32768))
  | .int => some (.int (-2147483648))
  | .long => some (.long (-9223372036854775808))
  | .float => some (.float (Float32.ofBits 0xFF7FFFFF))
  | .double => some (.double (Float.ofBits 0xFFEFFFFFFFFFFFFF))
  | .char => some (.char '\x00')
  | _ => none

/-- The number that is no number, and the infinities. -/
def special? (name : String) : DataType → Option Literal
  | .float =>
      match name with
      | "NaN" => some (.float (Float32.ofBits 0x7FC00000))
      | "PositiveInfinity" => some (.float (Float32.ofBits 0x7F800000))
      | "NegativeInfinity" => some (.float (Float32.ofBits 0xFF800000))
      | _ => none
  | .double =>
      match name with
      | "NaN" => some (.double (Float.ofBits 0x7FF8000000000000))
      | "PositiveInfinity" => some (.double (Float.ofBits 0x7FF0000000000000))
      | "NegativeInfinity" => some (.double (Float.ofBits 0xFFF0000000000000))
      | _ => none
  | _ => none

def typeConstant? (name : String) (t : DataType) : Option Literal :=
  match name with
  | "MaxValue" => greatest? t
  | "MinValue" => least? t
  | "Empty" => if t = .string then some (.string "") else none
  | _ => special? name t

/-- A constant of an owner, such as `Math.PI` and `int.MaxValue`, and its type. -/
def constant? (owner : Owner) (name : String) : Option (Literal × DataType) :=
  match owner, name with
  | .math, "PI" => some (.double (Float.ofBits 0x400921FB54442D18), .double)
  | .math, "E" => some (.double (Float.ofBits 0x4005BF0A8B145769), .double)
  | .type t, name => (typeConstant? name t).map (·, t)
  | _, _ => none

/-- The types of the overloads of `Abs`, `Max` and `Min`. -/
def mathTypes : List DataType :=
  [.int, .long, .float, .double]

/-- A method of one or two numbers of the same type, for each of the types. -/
def mathOverloads (count : Nat) (r : Code.Routine) : List Overload :=
  mathTypes.map fun t => ⟨List.replicate count t, t, r⟩

def conversionTarget? : String → Option DataType
  | "ToBoolean" => some .bool
  | "ToByte" => some .byte
  | "ToInt16" => some .short
  | "ToInt32" => some .int
  | "ToInt64" => some .long
  | "ToSingle" => some .float
  | "ToDouble" => some .double
  | "ToChar" => some .char
  | "ToString" => some .string
  | _ => none

/-- The types that have a method `Parse`. -/
def isReadable (t : DataType) : Bool :=
  t.isNumeric || t == .bool || t == .char

def mathMethods? : String → Option (List Overload)
  | "Abs" => some (mathOverloads 1 .abs)
  | "Max" => some (mathOverloads 2 .max)
  | "Min" => some (mathOverloads 2 .min)
  | "Pow" => some [⟨[.double, .double], .double, .pow⟩]
  | "Sqrt" => some [⟨[.double], .double, .sqrt⟩]
  | "Floor" => some [⟨[.double], .double, .floor⟩]
  | "Ceiling" => some [⟨[.double], .double, .ceiling⟩]
  | "Round" => some [⟨[.double], .double, .round⟩]
  | _ => none

def consoleMethods? : String → Option (List Overload)
  | "WriteLine" => some [⟨[], .void, .writeNewline⟩, ⟨[.object], .void, .writeLine⟩]
  | "Write" => some [⟨[.object], .void, .write⟩]
  | _ => none

def typeMethods? (t : DataType) (name : String) : Option (List Overload) :=
  if t = .string ∧ name = "IsNullOrEmpty" then some [⟨[.string], .bool, .isNullOrEmpty⟩]
  else if t = .string ∧ name = "Concat" then
    some ([2, 3, 4].map fun n => ⟨List.replicate n .object, .string, .concat (UInt8.ofNat n)⟩)
  else if isReadable t ∧ name = "Parse" then some [⟨[.string], t, .parse t⟩]
  else none

/-- The overloads of a static method of the catalogue. -/
def staticMethods? (owner : Owner) (name : String) : Option (List Overload) :=
  match owner with
  | .math => mathMethods? name
  | .convert => (conversionTarget? name).map fun t => [⟨[.object], t, .convertTo t⟩]
  | .console => consoleMethods? name
  | .type t => typeMethods? t name
  | .cls _ => none

/-- A property of a value, and its type. -/
def property? (receiver : DataType) (name : String) : Option (Code.Routine × DataType) :=
  match receiver, name with
  | .string, "Length" => some (.length, .int)
  | .exception _, "Message" => some (.message, .string)
  | _, _ => none

def stringMethods? : String → Option (List Overload)
  | "ToUpper" => some [⟨[], .string, .toUpper⟩]
  | "ToLower" => some [⟨[], .string, .toLower⟩]
  | "Trim" => some [⟨[], .string, .trim⟩]
  | "Substring" => some [⟨[.int], .string, .substring⟩, ⟨[.int, .int], .string, .substringOf⟩]
  | "Contains" => some [⟨[.string], .bool, .contains⟩]
  | "StartsWith" => some [⟨[.string], .bool, .startsWith⟩]
  | "EndsWith" => some [⟨[.string], .bool, .endsWith⟩]
  | "IndexOf" => some [⟨[.char], .int, .indexOf⟩, ⟨[.string], .int, .indexOf⟩]
  | "Replace" => some [⟨[.char, .char], .string, .replace⟩, ⟨[.string, .string], .string, .replace⟩]
  | _ => none

/-- The overloads of a method of a value. -/
def methods? (receiver : DataType) (name : String) : Option (List Overload) :=
  if name = "ToString" then
    if receiver = .void then none else some [⟨[], .string, .toText⟩]
  else if receiver = .string then stringMethods? name
  else none

end Catalogue

end Scriptlet
