import Scriptlet.DataType
import Scriptlet.Decimal.General

namespace Scriptlet

/-!
# Values

What flows through running programs: the argument reader produces values, the machine computes with
them, and a caller gets one back.
-/

inductive Value where
  | void
  | null
  | bool (b : Bool)
  | byte (n : UInt8)
  | short (n : Int16)
  | int (n : Int32)
  | long (n : Int64)
  | float (x : Float32)
  | double (x : Float)
  | char (c : Char)
  | string (s : String)
  | exception (c : ExceptionClass) (message : String)
  deriving DecidableEq, Inhabited

namespace Value

/-- The type of a value; null counts as an object. -/
def dataType : Value → DataType
  | void => .void
  | null => .object
  | bool _ => .bool
  | byte _ => .byte
  | short _ => .short
  | int _ => .int
  | long _ => .long
  | float _ => .float
  | double _ => .double
  | char _ => .char
  | string _ => .string
  | exception c _ => .exception c

def basicType? : Value → Option BasicType
  | null => none
  | v => v.dataType.toBasicType?

def runtimeName : Value → String
  | null => "null"
  | v => v.dataType.runtimeName

def isNull : Value → Bool
  | null => true
  | _ => false

def string? : Value → Option String
  | string s => some s
  | _ => none

/-- The text that printing a value shows. -/
def text : Value → String
  | void | null => ""
  | bool b => if b then "True" else "False"
  | byte n => n.toNat.repr
  | short n => n.toInt.repr
  | int n => n.toInt.repr
  | long n => n.toInt.repr
  | float x => float32Text x
  | double x => floatText x
  | char c => c.toString
  | string s => s
  | exception c message => c.fullName ++ ": " ++ message

end Value

end Scriptlet
