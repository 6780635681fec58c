import Scriptlet.Code.Listing

namespace Scriptlet.Machine

/-!
# Faults

Why a run ends without a value. A well-formed program can throw an exception or fail in an
operation; a malformed one has a defect, such as a missing operand. No statement catches an
exception, so every fault ends the run.
-/

open Code (Routine)

/-- What a program can get wrong while it runs. -/
inductive RuntimeError where
  | divideByZero
  | overflow
  /-- A number does not fit the type. -/
  | outOfRange (t : DataType)
  | negateMinimum
  | nullReference
  | badUnboxing (source target : String)
  | badConversion (source target : String)
  | indexOutOfRange
  | nullArgument (parameter : String)
  | negativeStart
  | startBeyondEnd
  | negativeLength
  | endBeyondEnd
  | emptyOldValue
  | notBool (text : String)
  | notChar
  | notNumber (text : String)
  | stackExhausted
  deriving DecidableEq

namespace RuntimeError

def exceptionClass : RuntimeError → ExceptionClass
  | divideByZero => .divideByZero
  | overflow | outOfRange _ | negateMinimum => .overflow
  | nullReference => .nullReference
  | badUnboxing _ _ | badConversion _ _ => .invalidCast
  | indexOutOfRange => .indexOutOfRange
  | nullArgument _ | emptyOldValue => .argument
  | negativeStart | startBeyondEnd | negativeLength | endBeyondEnd => .argumentOutOfRange
  | notBool _ | notChar | notNumber _ => .format
  | stackExhausted => .insufficientStack

/-- A type with its article, as messages on ranges name it. -/
def rangeName : DataType → String
  | .byte => "an unsigned byte"
  | .short => "an Int16"
  | .int => "an Int32"
  | .long => "an Int64"
  | .char => "a character"
  | _ => "the target type"

/-- A message with the parameter it is about. -/
def about (parameter detail : String) : String :=
  detail ++ " (Parameter '" ++ parameter ++ "')"

def message : RuntimeError → String
  | outOfRange t => "Value was either too large or too small for " ++ rangeName t ++ "."
  | negateMinimum => "Negating the minimum value of a twos complement number is invalid."
  | badUnboxing source target =>
      "Unable to cast object of type '" ++ source ++ "' to type '" ++ target ++ "'."
  | badConversion source target => "Invalid cast from '" ++ source ++ "' to '" ++ target ++ "'."
  | nullArgument parameter => about parameter "Value cannot be null."
  | emptyOldValue => about "oldValue" "String cannot be of zero length."
  | negativeStart => about "startIndex" "StartIndex cannot be less than zero."
  | startBeyondEnd => about "startIndex" "startIndex cannot be larger than length of string."
  | negativeLength => about "length" "Length cannot be less than zero."
  | endBeyondEnd => about "length" "Index and length must refer to a location within the string."
  | notBool text => "String '" ++ text ++ "' was not recognized as a valid Boolean."
  | notChar => "String must be exactly one character long."
  | notNumber text => "The input string '" ++ text ++ "' was not in a correct format."
  | e => e.exceptionClass.defaultMessage

end RuntimeError

/-- What can be wrong with a program itself. -/
inductive Defect where
  | underflow
  | noFrame
  | literalOutOfRange
  | slotOutOfRange
  | outsideModule
  | argumentCount (signature : String) (count : Nat)
  | routineCount (r : Routine) (count : Nat)
  | operands (op : BinaryOp) (left right : String)
  | floatingOperands (op : BinaryOp)
  | shiftedFloat (op : BinaryOp)
  | shiftCount (op : BinaryOp)
  | negated
  | complemented
  | inverted (operand : String)
  | conversion (source : String) (target : DataType)
  | conversionTarget (target : DataType)
  | branch (operand : String)
  | thrown (operand : String)
  | parseTarget (target : DataType)
  | parsed (operand : String)
  | receiver (operand : String)
  | stringArgument (operand : String)
  | intArgument (operand : String)
  | doubleArgument (operand : String)
  | extremum
  | routineArgument (r : Routine) (operand : String)
  deriving DecidableEq

namespace Defect

def detail : Defect → String
  | underflow => "operand stack underflow"
  | noFrame => "no active frame"
  | literalOutOfRange => "constant index out of range"
  | slotOutOfRange => "local slot out of range"
  | outsideModule => "call to a method outside the module"
  | argumentCount s n => s ++ " called with " ++ n.repr ++ " arguments"
  | routineCount r n => r.listing ++ " called with " ++ n.repr ++ " arguments"
  | operands op l r => op.name ++ " on " ++ l ++ " and " ++ r
  | floatingOperands op => op.name ++ " on floating-point operands"
  | shiftedFloat op => op.name ++ " on a floating-point operand"
  | shiftCount op => op.name ++ " with a non-int count"
  | negated => "Neg on a non-numeric operand"
  | complemented => "BitNot on a non-integral operand"
  | inverted t => "Not on " ++ t
  | conversion s t => "convert " ++ s ++ " to " ++ t.keyword
  | conversionTarget t => "convert to " ++ t.keyword
  | branch t => "branch on " ++ t
  | thrown t => "throw of " ++ t
  | parseTarget t => "parse to " ++ t.keyword
  | parsed t => "parse of " ++ t
  | receiver t => "string member on " ++ t
  | stringArgument t => "string argument of type " ++ t
  | intArgument t => "int argument of type " ++ t
  | doubleArgument t => "double argument of type " ++ t
  | extremum => "Math.Max/Min on non-numeric operands"
  | routineArgument r t => r.listing ++ " on " ++ t

end Defect

inductive Fault where
  /-- The program threw an exception. -/
  | thrown (c : ExceptionClass) (message : String)
  | failed (e : RuntimeError)
  | defective (d : Defect)
  deriving DecidableEq

namespace Fault

def exceptionClass : Fault → ExceptionClass
  | thrown c _ => c
  | failed e => e.exceptionClass
  | defective _ => .invalidOperation

def message : Fault → String
  | thrown _ m => m
  | failed e => e.message
  | defective d => "Invalid program: " ++ d.detail ++ "."

/-- The text of the exception that the fault stands for. -/
def text (f : Fault) : String :=
  (Value.exception f.exceptionClass f.message).text

end Fault

end Scriptlet.Machine
