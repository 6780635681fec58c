import Scriptlet.Code.Module
import Scriptlet.Machine.Fault
import Scriptlet.Machine.Promotion
import Scriptlet.Value.Reader

namespace Scriptlet.Machine

/-!
# Conversions

Four ways from one type to another: the cast, which never checks a range; the step down from
`object`, which checks the type; the conversion routines, which check ranges and round to the
nearest integer; and the widening of an argument to the type of a parameter.
-/

/-- The character with a code; codes that are no characters become the replacement character. -/
def charOfCode (code : Nat) : Char :=
  if code.isValidChar then Char.ofNat code else '\uFFFD'

/-- The cast of a value to a type. Truth values and references stay as they are. -/
def cast (v : Value) (target : DataType) : Except Fault Value :=
  match target with
  | .bool | .string | .object | .exception _ => .ok v
  | _ =>
      match Promoted.of? v with
      | none => .error (.defective (.conversion v.runtimeName target))
      | some p =>
          match target with
          | .byte => .ok (.byte (UInt8.ofInt (p.toInteger 0 255)))
          | .short => .ok (.short (Int16.ofInt (p.toInteger (-32768) 32767)))
          | .int => .ok (.int (Int32.ofInt (p.toInteger (-2147483648) 2147483647)))
          | .long =>
              .ok (.long (Int64.ofInt (p.toInteger (-9223372036854775808) 9223372036854775807)))
          | .float => .ok (.float p.toFloat)
          | .double => .ok (.double p.toDouble)
          | .char => .ok (.char (charOfCode (p.toInteger 0 65535 % 65536).toNat))
          | _ => .error (.defective (.conversionTarget target))

/-- Whether a value that is not null is an instance of a type below `object`. -/
def isInstance (v : Value) (target : DataType) : Bool :=
  match v with
  | .exception c _ => target == .exception c || target == .exception .exception
  | _ => v.dataType == target

/-- The checked step from `object` down to a type. -/
def unbox (v : Value) (target : DataType) : Except Fault Value :=
  if target = .object then .ok v
  else if v.isNull then
    if target.isReference then .ok v else .error (.failed .nullReference)
  else if isInstance v target then .ok v
  else .error (.failed (.badUnboxing v.runtimeName target.runtimeName))

/-- The value as an argument of a parameter type, if its type widens to it. -/
def widen (v : Value) (target : DataType) : Option Value :=
  if v.isNull then
    if target.isReference then some .null else none
  else if v.dataType = .void || !v.dataType.widensTo target then none
  else if v.dataType = target || !target.isNumeric then some v
  else (cast v target).toOption

/-- An integer as a value of an integral type or as a character, if it is in range. -/
def integral (n : Int) (target : DataType) : Except Fault Value :=
  let within (lo hi : Int) (v : Value) : Except Fault Value :=
    if lo ≤ n ∧ n ≤ hi then .ok v else .error (.failed (.outOfRange target))
  match target with
  | .byte => within 0 255 (.byte (UInt8.ofInt n))
  | .short => within (-32768) 32767 (.short (Int16.ofInt n))
  | .int => within (-2147483648) 2147483647 (.int (Int32.ofInt n))
  | .char => within 0 65535 (.char (charOfCode n.toNat))
  | _ => within (-9223372036854775808) 9223372036854775807 (.long (Int64.ofInt n))

/-- A number as an integer of a type: rounded to the nearest, ties to even, and then checked. -/
def roundedIntegral (x : Binary.Datum) (target : DataType) : Except Fault Value :=
  match Binary.double.roundWhole .toEven x with
  | .finite negative units =>
      let whole : Int := units / Binary.double.one
      integral (if negative then -whole else whole) target
  | _ => .error (.failed (.outOfRange target))

def readFailure (text : String) (target : DataType) : ReadError → RuntimeError
  | .overflow => .outOfRange target
  | .format =>
      match target with
      | .bool => .notBool text
      | .char => .notChar
      | _ => .notNumber text

/-- The value that a text denotes as an element of a type. -/
def parseText (text : String) (target : DataType) : Except Fault Value :=
  match target.toBasicType? with
  | none => .error (.defective (.parseTarget target))
  | some t => (readValue text t).mapError fun e => .failed (readFailure text target e)

/-- The parsing routine of a type. -/
def parse (v : Value) (target : DataType) : Except Fault Value :=
  match v with
  | .string s => parseText s target
  | .null => .error (.failed (.nullArgument "s"))
  | _ => .error (.defective (.parsed v.runtimeName))

def noConversion (v : Value) (target : DataType) : Fault :=
  .failed (.badConversion v.dataType.shortName target.shortName)

/-- The conversion routine to truth values: every number but zero is true. -/
def convertToBool (v : Value) : Except Fault Value :=
  match v with
  | .null => .ok (.bool false)
  | .bool _ => .ok v
  | .string s => parseText s .bool
  | .char _ => .error (noConversion v .bool)
  | _ =>
      match Promoted.of? v with
      | some (.int n) => .ok (.bool (n != 0))
      | some (.long n) => .ok (.bool (n != 0))
      | some (.float x) => .ok (.bool (x != 0))
      | some (.double x) => .ok (.bool (x != 0))
      | none => .error (noConversion v .bool)

/-- The conversion of a number, which is no character, to a type other than `bool` and `string`. -/
def convertNumber (v : Value) (target : DataType) : Except Fault Value :=
  match target with
  | .float | .double => cast v target
  | _ =>
      match Promoted.of? v with
      | some (.int n) => integral n.toInt target
      | some (.long n) => integral n.toInt target
      | some p =>
          if target = .char then .error (noConversion v target)
          else roundedIntegral (Binary.ofFloat p.toDouble) target
      | none => .error (noConversion v target)

/-- The conversion routine to a type. -/
def convertTo (v : Value) (target : DataType) : Except Fault Value :=
  match target with
  | .string => .ok (.string v.text)
  | .bool => convertToBool v
  | _ =>
      match v with
      | .null => .ok (Code.Literal.defaultOf target).toValue
      | .string s => parseText s target
      | .bool b =>
          match target with
          | .char => .error (noConversion v target)
          | .float | .double => cast (.int (if b then 1 else 0)) target
          | _ => integral (if b then 1 else 0) target
      | .char c =>
          match target with
          | .float | .double => .error (noConversion v target)
          | _ => integral c.toNat target
      | .exception _ _ | .void => .error (noConversion v target)
      | _ => convertNumber v target

end Scriptlet.Machine
