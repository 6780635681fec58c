import Scriptlet.Machine.Fault
import Scriptlet.Machine.Promotion

namespace Scriptlet.Machine

/-!
# Operators

Arithmetic, bitwise operators, shifts and comparisons on values. Integers wrap around; a division
fails for a zero divisor and for the one quotient that has no value.
-/

def mismatch (op : BinaryOp) (left right : Value) : Fault :=
  .defective (.operands op left.runtimeName right.runtimeName)

def divideInt (f : Int32 → Int32 → Int32) (a b : Int32) : Except Fault Value :=
  if b = 0 then .error (.failed .divideByZero)
  else if a = Int32.minValue ∧ b = -1 then .error (.failed .overflow)
  else .ok (.int (f a b))

def divideLong (f : Int64 → Int64 → Int64) (a b : Int64) : Except Fault Value :=
  if b = 0 then .error (.failed .divideByZero)
  else if a = Int64.minValue ∧ b = -1 then .error (.failed .overflow)
  else .ok (.long (f a b))

def add : Pair → Value
  | .ints a b => .int (a + b)
  | .longs a b => .long (a + b)
  | .floats a b => .float (a + b)
  | .doubles a b => .double (a + b)

def sub : Pair → Value
  | .ints a b => .int (a - b)
  | .longs a b => .long (a - b)
  | .floats a b => .float (a - b)
  | .doubles a b => .double (a - b)

def mul : Pair → Value
  | .ints a b => .int (a * b)
  | .longs a b => .long (a * b)
  | .floats a b => .float (a * b)
  | .doubles a b => .double (a * b)

def div : Pair → Except Fault Value
  | .ints a b => divideInt (· / ·) a b
  | .longs a b => divideLong (· / ·) a b
  | .floats a b => .ok (.float (a / b))
  | .doubles a b => .ok (.double (a / b))

def rem : Pair → Except Fault Value
  | .ints a b => divideInt (· % ·) a b
  | .longs a b => divideLong (· % ·) a b
  | .floats a b => .ok (.float (Binary.float32Remainder a b))
  | .doubles a b => .ok (.double (Binary.floatRemainder a b))

/-- A bitwise operator on integers or on truth values. -/
def bitwise (op : BinaryOp) (onBool : Bool → Bool → Bool) (onInt : Int32 → Int32 → Int32)
    (onLong : Int64 → Int64 → Int64) (left right : Value) : Except Fault Value :=
  match left, right with
  | .bool a, .bool b => .ok (.bool (onBool a b))
  | _, _ =>
      match Pair.of? left right with
      | some (.ints a b) => .ok (.int (onInt a b))
      | some (.longs a b) => .ok (.long (onLong a b))
      | some _ => .error (.defective (.floatingOperands op))
      | none => .error (mismatch op left right)

/-- A shift by a count that is taken modulo the width of the left operand. -/
def shift (op : BinaryOp) (onInt : Int32 → Int32 → Int32) (onLong : Int64 → Int64 → Int64)
    (left right : Value) : Except Fault Value :=
  match Promoted.of? left, Promoted.of? right with
  | some (.int n), some (.int count) => .ok (.int (onInt n (count &&& 31)))
  | some (.long n), some (.int count) => .ok (.long (onLong n (count &&& 63).toInt64))
  | some _, some (.int _) => .error (.defective (.shiftedFloat op))
  | _, _ => .error (.defective (.shiftCount op))

/-- Numbers are equal after promotion; other values are equal if they are the same. -/
def equals (left right : Value) : Bool :=
  match Pair.of? left right with
  | some (.ints a b) => a == b
  | some (.longs a b) => a == b
  | some (.floats a b) => a == b
  | some (.doubles a b) => a == b
  | none => decide (left = right)

def less : Pair → Bool
  | .ints a b => a < b
  | .longs a b => a < b
  | .floats a b => a < b
  | .doubles a b => a < b

def lessOrEqual : Pair → Bool
  | .ints a b => a ≤ b
  | .longs a b => a ≤ b
  | .floats a b => a ≤ b
  | .doubles a b => a ≤ b

/-- The same operands in the other order. -/
def Pair.swap : Pair → Pair
  | .ints a b => .ints b a
  | .longs a b => .longs b a
  | .floats a b => .floats b a
  | .doubles a b => .doubles b a

/-- An operator that needs two numbers. -/
def onPair (op : BinaryOp) (f : Pair → Except Fault Value) (left right : Value) :
    Except Fault Value :=
  match Pair.of? left right with
  | some p => f p
  | none => .error (mismatch op left right)

def binary (op : BinaryOp) (left right : Value) : Except Fault Value :=
  match op with
  | .add => onPair op (fun p => .ok (add p)) left right
  | .sub => onPair op (fun p => .ok (sub p)) left right
  | .mul => onPair op (fun p => .ok (mul p)) left right
  | .div => onPair op div left right
  | .rem => onPair op rem left right
  | .bitAnd => bitwise op (· && ·) (· &&& ·) (· &&& ·) left right
  | .bitOr => bitwise op (· || ·) (· ||| ·) (· ||| ·) left right
  | .bitXor => bitwise op (· != ·) (· ^^^ ·) (· ^^^ ·) left right
  | .shl => shift op (· <<< ·) (· <<< ·) left right
  | .shr => shift op (· >>> ·) (· >>> ·) left right
  | .eq => .ok (.bool (equals left right))
  | .ne => .ok (.bool (!equals left right))
  | .lt => onPair op (fun p => .ok (.bool (less p))) left right
  | .le => onPair op (fun p => .ok (.bool (lessOrEqual p))) left right
  | .gt => onPair op (fun p => .ok (.bool (less p.swap))) left right
  | .ge => onPair op (fun p => .ok (.bool (lessOrEqual p.swap))) left right

def unary (op : UnaryOp) (operand : Value) : Except Fault Value :=
  match op with
  | .not =>
      match operand with
      | .bool b => .ok (.bool !b)
      | _ => .error (.defective (.inverted operand.runtimeName))
  | .neg =>
      match Promoted.of? operand with
      | some (.int n) => .ok (.int (-n))
      | some (.long n) => .ok (.long (-n))
      | some (.float x) => .ok (.float (-x))
      | some (.double x) => .ok (.double (-x))
      | none => .error (.defective .negated)
  | .bitNot =>
      match Promoted.of? operand with
      | some (.int n) => .ok (.int (~~~n))
      | some (.long n) => .ok (.long (~~~n))
      | _ => .error (.defective .complemented)

end Scriptlet.Machine
