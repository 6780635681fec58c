import Scriptlet.Binary.Number
import Scriptlet.Value

namespace Scriptlet.Machine

/-!
# Numeric promotion

Operators bring their operands to a common type first: small integers and characters become `int`,
and of two operands the narrower one is widened along `int`, `long`, `float`, `double`.
-/

inductive Promoted where
  | int (n : Int32)
  | long (n : Int64)
  | float (x : Float32)
  | double (x : Float)

namespace Promoted

/-- The promotion of a numeric value or a character. -/
def of? : Value → Option Promoted
  | .byte n => some (.int (Int32.ofNat n.toNat))
  | .short n => some (.int n.toInt32)
  | .char c => some (.int (Int32.ofNat c.toNat))
  | .int n => some (.int n)
  | .long n => some (.long n)
  | .float x => some (.float x)
  | .double x => some (.double x)
  | _ => none

def toValue : Promoted → Value
  | int n => .int n
  | long n => .long n
  | float x => .float x
  | double x => .double x

def toDouble : Promoted → Float
  | int n => Binary.floatOfInt n.toInt
  | long n => Binary.floatOfInt n.toInt
  | float x => Binary.extend x
  | double x => x

def toFloat : Promoted → Float32
  | int n => Binary.float32OfInt n.toInt
  | long n => Binary.float32OfInt n.toInt
  | float x => x
  | double x => Binary.narrow x

/-- The integer between two bounds that a cast takes: integers are left to wrap around later, and
floating-point numbers are cut off toward zero and held within the bounds. -/
def toInteger (lo hi : Int) : Promoted → Int
  | int n => n.toInt
  | long n => n.toInt
  | float x => Binary.single.truncate lo hi (Binary.ofFloat32 x)
  | double x => Binary.double.truncate lo hi (Binary.ofFloat x)

end Promoted

/-- Two operands of one promoted type. -/
inductive Pair where
  | ints (a b : Int32)
  | longs (a b : Int64)
  | floats (a b : Float32)
  | doubles (a b : Float)

def Pair.of : Promoted → Promoted → Pair
  | .double a, b => .doubles a b.toDouble
  | a, .double b => .doubles a.toDouble b
  | .float a, b => .floats a b.toFloat
  | a, .float b => .floats a.toFloat b
  | .long a, .long b => .longs a b
  | .long a, .int b => .longs a b.toInt64
  | .int a, .long b => .longs a.toInt64 b
  | .int a, .int b => .ints a b

/-- The common type of two values, if both are numeric. -/
def Pair.of? (left right : Value) : Option Pair :=
  match Promoted.of? left, Promoted.of? right with
  | some a, some b => some (Pair.of a b)
  | _, _ => none

end Scriptlet.Machine
