import Scriptlet.Operator
import Scriptlet.Value

namespace Scriptlet.Code

/-!
# Instructions

The instructions of the stack machine. An instruction pops its operands and pushes its result.
Arithmetic, bitwise operators and comparisons bring their operands to a common type when they run,
so explicit conversions stand only where a value is stored, passed or cast. Jump targets are
positions in the code of the method.
-/

/-- The built-in library. -/
inductive Routine where
  | abs
  | max
  | min
  | pow
  | sqrt
  | floor
  | ceiling
  | round
  /-- Reads a text as a value of the type. -/
  | parse (t : DataType)
  /-- The checked conversion to the type. -/
  | convertTo (t : DataType)
  | toText
  | length
  | charAt
  | toUpper
  | toLower
  | trim
  /-- The rest of a text from a position. -/
  | substring
  /-- A given number of characters from a position. -/
  | substringOf
  | contains
  | startsWith
  | endsWith
  | indexOf
  | replace
  | isNullOrEmpty
  /-- The concatenation of `n` texts. -/
  | concat (n : UInt8)
  | newException (c : ExceptionClass)
  /-- A new exception with the message of its class. -/
  | newDefault (c : ExceptionClass)
  | message
  | writeLine
  | writeNewline
  | write
  deriving DecidableEq

namespace Routine

/-- The number of arguments. -/
def arity : Routine → Nat
  | newDefault _ | writeNewline => 0
  | max | min | pow | charAt | substring | contains | startsWith | endsWith | indexOf => 2
  | substringOf | replace => 3
  | concat n => n.toNat
  | _ => 1

def name : Routine → String
  | abs => "MathAbs"
  | max => "MathMax"
  | min => "MathMin"
  | pow => "MathPow"
  | sqrt => "MathSqrt"
  | floor => "MathFloor"
  | ceiling => "MathCeiling"
  | round => "MathRound"
  | parse _ => "Parse"
  | convertTo _ => "ConvertTo"
  | toText => "ToString"
  | length => "StrLength"
  | charAt => "StrCharAt"
  | toUpper => "StrToUpper"
  | toLower => "StrToLower"
  | trim => "StrTrim"
  | substring => "StrSubstring"
  | substringOf => "StrSubstringLen"
  | contains => "StrContains"
  | startsWith => "StrStartsWith"
  | endsWith => "StrEndsWith"
  | indexOf => "StrIndexOf"
  | replace => "StrReplace"
  | isNullOrEmpty => "StrIsNullOrEmpty"
  | concat _ => "StrConcat"
  | newException _ => "NewException"
  | newDefault _ => "NewExceptionDefault"
  | message => "ExceptionMessage"
  | writeLine => "WriteLine"
  | writeNewline => "WriteLineEmpty"
  | write => "Write"

end Routine

inductive Instr where
  /-- Push a literal of the method. -/
  | const (index : UInt32)
  | load (slot : UInt16)
  | store (slot : UInt16)
  | pop
  | dup
  /-- Does nothing; holds the place of a conversion that turned out not to be needed. -/
  | nop
  | binary (op : BinaryOp)
  | unary (op : UnaryOp)
  | concat
  | convert (t : DataType)
  /-- The checked step down from `object`. -/
  | unbox (t : DataType)
  | jump (target : UInt32)
  | jumpIfFalse (target : UInt32)
  | jumpIfTrue (target : UInt32)
  | call (cls method : UInt16)
  | routine (r : Routine)
  | ret
  | retVoid
  /-- Pop an exception and raise it. -/
  | throw
  deriving DecidableEq, Inhabited

def Instr.name : Instr → String
  | const _ => "Const"
  | load _ => "LoadLocal"
  | store _ => "StoreLocal"
  | pop => "Pop"
  | dup => "Dup"
  | nop => "Nop"
  | binary op => op.name
  | unary op => op.name
  | concat => "Concat"
  | convert _ => "Convert"
  | unbox _ => "Unbox"
  | jump _ => "Jump"
  | jumpIfFalse _ => "JumpIfFalse"
  | jumpIfTrue _ => "JumpIfTrue"
  | call _ _ => "Call"
  | routine _ => "Intrinsic"
  | ret => "Return"
  | retVoid => "ReturnVoid"
  | throw => "Throw"

end Scriptlet.Code
