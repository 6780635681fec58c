import Scriptlet.Code.Instr

namespace Scriptlet.Code

/-!
# Compiled modules

A module is a list of classes, a class a list of methods, and a method its signature, its literals
and its instructions.
-/

/-- The values that a method can hold as literals. -/
inductive Literal where
  | null
  | bool (b : Bool)
  | byte (n : UInt8)
  | short (n : Int16)
  | int (n : Int32)
  | long (n : Int64)
  | float (x : Float32)
  | double (x : Float)
  | char (c : Char)
  | string (s : String)
  deriving DecidableEq, Inhabited

namespace Literal

def toValue : Literal → Value
  | null => .null
  | bool b => .bool b
  | byte n => .byte n
  | short n => .short n
  | int n => .int n
  | long n => .long n
  | float x => .float x
  | double x => .double x
  | char c => .char c
  | string s => .string s

/-- The initial value of a variable of a type. -/
def defaultOf : DataType → Literal
  | .bool => bool false
  | .byte => byte 0
  | .short => short 0
  | .int => int 0
  | .long => long 0
  | .float => float 0
  | .double => double 0
  | .char => char '\x00'
  | .void | .string | .object | .exception _ => null

end Literal

structure Method where
  name : String
  isPublic : Bool
  isStatic : Bool
  params : List DataType
  paramNames : List String
  result : DataType
  /-- The number of local slots; the parameters take the first ones. -/
  locals : UInt16
  literals : Array Literal
  code : Array Instr
  deriving DecidableEq

/-- `Name(int, string)`. -/
def signatureText (name : String) (params : List DataType) : String :=
  name ++ "(" ++ ", ".intercalate (params.map DataType.keyword) ++ ")"

def Method.signature (m : Method) : String :=
  signatureText m.name m.params

structure Class where
  name : String
  methods : Array Method
  deriving DecidableEq

structure Module where
  name : String
  classes : Array Class
  deriving DecidableEq

/-- The place of a method in its module. -/
structure Handle where
  cls : UInt16
  method : UInt16
  deriving DecidableEq, Inhabited

/-- The handle of a place; numbers beyond the greatest operand count as that one. -/
def Handle.ofPlace (cls method : Nat) : Handle :=
  ⟨UInt16.ofNat (min cls 65535), UInt16.ofNat (min method 65535)⟩

def Module.method? (m : Module) (h : Handle) : Option Method :=
  m.classes[h.cls.toNat]?.bind fun c => c.methods[h.method.toNat]?

end Scriptlet.Code
