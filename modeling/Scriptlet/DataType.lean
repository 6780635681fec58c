namespace Scriptlet

/-!
# Types of data

The exception classes, the types that compiled code distinguishes, and among them the basic types,
whose values a caller can supply as text.
-/

inductive ExceptionClass where
  | exception
  | argument
  | argumentOutOfRange
  | invalidOperation
  | format
  | overflow
  | divideByZero
  | notSupported
  | nullReference
  | invalidCast
  | indexOutOfRange
  | insufficientStack
  deriving DecidableEq

namespace ExceptionClass

def name : ExceptionClass → String
  | exception => "Exception"
  | argument => "ArgumentException"
  | argumentOutOfRange => "ArgumentOutOfRangeException"
  | invalidOperation => "InvalidOperationException"
  | format => "FormatException"
  | overflow => "OverflowException"
  | divideByZero => "DivideByZeroException"
  | notSupported => "NotSupportedException"
  | nullReference => "NullReferenceException"
  | invalidCast => "InvalidCastException"
  | indexOutOfRange => "IndexOutOfRangeException"
  | insufficientStack => "InsufficientExecutionStackException"

def all : List ExceptionClass :=
  [exception, argument, argumentOutOfRange, invalidOperation, format, overflow, divideByZero,
    notSupported, nullReference, invalidCast, indexOutOfRange, insufficientStack]

def ofName? (s : String) : Option ExceptionClass :=
  all.find? (·.name == s)

/-- The name with its namespace. -/
def fullName (c : ExceptionClass) : String :=
  "System." ++ c.name

/-- The message of an exception that is created without one. -/
def defaultMessage : ExceptionClass → String
  | divideByZero => "Attempted to divide by zero."
  | overflow => "Arithmetic operation resulted in an overflow."
  | nullReference => "Object reference not set to an instance of an object."
  | indexOutOfRange => "Index was outside the bounds of the array."
  | argument => "Value does not fall within the expected range."
  | invalidOperation => "Operation is not valid due to the current state of the object."
  | notSupported => "Specified method is not supported."
  | insufficientStack => "Insufficient stack to continue executing the program safely."
  | c => "Exception of type '" ++ c.fullName ++ "' was thrown."

end ExceptionClass

/-- The types that every program can name with a keyword, and whose values can be given as text. -/
inductive BasicType where
  | bool
  | byte
  | short
  | int
  | long
  | float
  | double
  | char
  | string
  | object
  deriving DecidableEq

def BasicType.name : BasicType → String
  | bool => "Boolean"
  | byte => "Byte"
  | short => "Int16"
  | int => "Int32"
  | long => "Int64"
  | float => "Single"
  | double => "Double"
  | char => "Char"
  | string => "String"
  | object => "Object"

/-- The types that compiled code distinguishes. -/
inductive DataType where
  | void
  | bool
  | byte
  | short
  | int
  | long
  | float
  | double
  | char
  | string
  | object
  | exception (c : ExceptionClass)
  deriving DecidableEq

def BasicType.toDataType : BasicType → DataType
  | bool => .bool
  | byte => .byte
  | short => .short
  | int => .int
  | long => .long
  | float => .float
  | double => .double
  | char => .char
  | string => .string
  | object => .object

namespace DataType

/-- The keyword of the type, as programs write it. -/
def keyword : DataType → String
  | void => "void"
  | bool => "bool"
  | byte => "byte"
  | short => "short"
  | int => "int"
  | long => "long"
  | float => "float"
  | double => "double"
  | char => "char"
  | string => "string"
  | object => "object"
  | exception c => c.fullName

/-- The name of the type without its namespace. -/
def shortName : DataType → String
  | void => "Void"
  | bool => "Boolean"
  | byte => "Byte"
  | short => "Int16"
  | int => "Int32"
  | long => "Int64"
  | float => "Single"
  | double => "Double"
  | char => "Char"
  | string => "String"
  | object => "Object"
  | exception c => c.name

/-- The name that running code reports. -/
def runtimeName (t : DataType) : String :=
  "System." ++ t.shortName

def isIntegral : DataType → Bool
  | byte | short | int | long => true
  | _ => false

def isNumeric : DataType → Bool
  | float | double => true
  | t => t.isIntegral

/-- Whether the type has a null value. -/
def isReference : DataType → Bool
  | string | object | exception _ => true
  | _ => false

/-- The implicit conversions that lose no magnitude, and those to `object`. -/
def widensTo (source target : DataType) : Bool :=
  source == target ||
    match source, target with
    | void, _ | _, void => false
    | _, object => true
    | exception _, exception .exception => true
    | byte, short | byte, int | byte, long => true
    | short, int | short, long | char, int | char, long => true
    | int, long => true
    | byte, float | short, float | char, float | int, float | long, float => true
    | byte, double | short, double | char, double | int, double | long, double => true
    | float, double => true
    | _, _ => false

def toBasicType? : DataType → Option BasicType
  | bool => some .bool
  | byte => some .byte
  | short => some .short
  | int => some .int
  | long => some .long
  | float => some .float
  | double => some .double
  | char => some .char
  | string => some .string
  | object => some .object
  | void | exception _ => none

end DataType

end Scriptlet
