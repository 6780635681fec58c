import Scriptlet.Code.Module
import Scriptlet.Image.Codec

namespace Scriptlet.Image

/-!
# The layout of a module

The codecs of types, literals, instructions, methods, classes and modules. The number of an
alternative is its place in the list of alternatives of its kind.
-/

open Code

def classNumber (c : ExceptionClass) : Nat :=
  ExceptionClass.all.idxOf c

def exceptionClass : Codec ExceptionClass :=
  .choice 12 classNumber (fun _ => []) fun n bytes =>
    .ok (ExceptionClass.all[n]?.getD .exception, bytes)

namespace DataType

def number : DataType → Nat
  | .void => 0
  | .bool => 1
  | .byte => 2
  | .short => 3
  | .int => 4
  | .long => 5
  | .float => 6
  | .double => 7
  | .char => 8
  | .string => 9
  | .object => 10
  | .exception _ => 11

def payload : DataType → List UInt8
  | .exception c => exceptionClass.put c
  | _ => []

def read (n : Nat) (bytes : List UInt8) : Except ReadError (DataType × List UInt8) :=
  match n with
  | 0 => .ok (.void, bytes)
  | 1 => .ok (.bool, bytes)
  | 2 => .ok (.byte, bytes)
  | 3 => .ok (.short, bytes)
  | 4 => .ok (.int, bytes)
  | 5 => .ok (.long, bytes)
  | 6 => .ok (.float, bytes)
  | 7 => .ok (.double, bytes)
  | 8 => .ok (.char, bytes)
  | 9 => .ok (.string, bytes)
  | 10 => .ok (.object, bytes)
  | _ => exceptionClass.part .exception bytes

end DataType

def dataType : Codec DataType :=
  .choice 12 DataType.number DataType.payload DataType.read

def int16 : Codec Int16 :=
  Codec.word16.map UInt16.toInt16 Int16.toUInt16

def int32 : Codec Int32 :=
  Codec.word32.map UInt32.toInt32 Int32.toUInt32

def int64 : Codec Int64 :=
  Codec.word64.map UInt64.toInt64 Int64.toUInt64

def float32 : Codec Float32 :=
  Codec.word32.map Float32.ofBits Float32.toBits

def float : Codec Float :=
  Codec.word64.map Float.ofBits Float.toBits

namespace Literal

def number : Literal → Nat
  | .null => 0
  | .bool _ => 1
  | .byte _ => 2
  | .short _ => 3
  | .int _ => 4
  | .long _ => 5
  | .float _ => 6
  | .double _ => 7
  | .char _ => 8
  | .string _ => 9

def payload : Literal → List UInt8
  | .null => []
  | .bool b => Codec.bool.put b
  | .byte n => Codec.byte.put n
  | .short n => int16.put n
  | .int n => int32.put n
  | .long n => int64.put n
  | .float x => float32.put x
  | .double x => float.put x
  | .char c => Codec.char.put c
  | .string s => Codec.string.put s

def read (n : Nat) (bytes : List UInt8) : Except ReadError (Literal × List UInt8) :=
  match n with
  | 0 => .ok (.null, bytes)
  | 1 => Codec.bool.part .bool bytes
  | 2 => Codec.byte.part .byte bytes
  | 3 => int16.part .short bytes
  | 4 => int32.part .int bytes
  | 5 => int64.part .long bytes
  | 6 => float32.part .float bytes
  | 7 => float.part .double bytes
  | 8 => Codec.char.part .char bytes
  | _ => Codec.string.part .string bytes

end Literal

def literal : Codec Literal :=
  .choice 10 Literal.number Literal.payload Literal.read

namespace Routine

def number : Routine → Nat
  | .abs => 0
  | .max => 1
  | .min => 2
  | .pow => 3
  | .sqrt => 4
  | .floor => 5
  | .ceiling => 6
  | .round => 7
  | .parse _ => 8
  | .convertTo _ => 9
  | .toText => 10
  | .length => 11
  | .charAt => 12
  | .toUpper => 13
  | .toLower => 14
  | .trim => 15
  | .substring => 16
  | .substringOf => 17
  | .contains => 18
  | .startsWith => 19
  | .endsWith => 20
  | .indexOf => 21
  | .replace => 22
  | .isNullOrEmpty => 23
  | .concat _ => 24
  | .newException _ => 25
  | .newDefault _ => 26
  | .message => 27
  | .writeLine => 28
  | .writeNewline => 29
  | .write => 30

def payload : Routine → List UInt8
  | .parse t | .convertTo t => dataType.put t
  | .concat n => Codec.byte.put n
  | .newException c | .newDefault c => exceptionClass.put c
  | _ => []

def read (n : Nat) (bytes : List UInt8) : Except ReadError (Routine × List UInt8) :=
  match n with
  | 0 => .ok (.abs, bytes)
  | 1 => .ok (.max, bytes)
  | 2 => .ok (.min, bytes)
  | 3 => .ok (.pow, bytes)
  | 4 => .ok (.sqrt, bytes)
  | 5 => .ok (.floor, bytes)
  | 6 => .ok (.ceiling, bytes)
  | 7 => .ok (.round, bytes)
  | 8 => dataType.part .parse bytes
  | 9 => dataType.part .convertTo bytes
  | 10 => .ok (.toText, bytes)
  | 11 => .ok (.length, bytes)
  | 12 => .ok (.charAt, bytes)
  | 13 => .ok (.toUpper, bytes)
  | 14 => .ok (.toLower, bytes)
  | 15 => .ok (.trim, bytes)
  | 16 => .ok (.substring, bytes)
  | 17 => .ok (.substringOf, bytes)
  | 18 => .ok (.contains, bytes)
  | 19 => .ok (.startsWith, bytes)
  | 20 => .ok (.endsWith, bytes)
  | 21 => .ok (.indexOf, bytes)
  | 22 => .ok (.replace, bytes)
  | 23 => .ok (.isNullOrEmpty, bytes)
  | 24 => Codec.byte.part .concat bytes
  | 25 => exceptionClass.part .newException bytes
  | 26 => exceptionClass.part .newDefault bytes
  | 27 => .ok (.message, bytes)
  | 28 => .ok (.writeLine, bytes)
  | 29 => .ok (.writeNewline, bytes)
  | _ => .ok (.write, bytes)

end Routine

def routine : Codec Routine :=
  .choice 31 Routine.number Routine.payload Routine.read

namespace Instr

def binaryNumber : BinaryOp → Nat
  | .add => 6
  | .sub => 7
  | .mul => 8
  | .div => 9
  | .rem => 10
  | .bitAnd => 14
  | .bitOr => 15
  | .bitXor => 16
  | .shl => 17
  | .shr => 18
  | .eq => 19
  | .ne => 20
  | .lt => 21
  | .le => 22
  | .gt => 23
  | .ge => 24

def unaryNumber : UnaryOp → Nat
  | .neg => 11
  | .not => 12
  | .bitNot => 13

def number : Instr → Nat
  | .const _ => 0
  | .load _ => 1
  | .store _ => 2
  | .pop => 3
  | .dup => 4
  | .nop => 5
  | .binary op => binaryNumber op
  | .unary op => unaryNumber op
  | .concat => 25
  | .convert _ => 26
  | .unbox _ => 27
  | .jump _ => 28
  | .jumpIfFalse _ => 29
  | .jumpIfTrue _ => 30
  | .call _ _ => 31
  | .routine _ => 32
  | .ret => 33
  | .retVoid => 34
  | .throw => 35

def payload : Instr → List UInt8
  | .const n | .jump n | .jumpIfFalse n | .jumpIfTrue n => Codec.word32.put n
  | .load n | .store n => Codec.word16.put n
  | .convert t | .unbox t => dataType.put t
  | .call c k => (Codec.word16.pair Codec.word16).put (c, k)
  | .routine r => routine.put r
  | _ => []

def read (n : Nat) (bytes : List UInt8) : Except ReadError (Instr × List UInt8) :=
  match n with
  | 0 => Codec.word32.part .const bytes
  | 1 => Codec.word16.part .load bytes
  | 2 => Codec.word16.part .store bytes
  | 3 => .ok (.pop, bytes)
  | 4 => .ok (.dup, bytes)
  | 5 => .ok (.nop, bytes)
  | 6 => .ok (.binary .add, bytes)
  | 7 => .ok (.binary .sub, bytes)
  | 8 => .ok (.binary .mul, bytes)
  | 9 => .ok (.binary .div, bytes)
  | 10 => .ok (.binary .rem, bytes)
  | 11 => .ok (.unary .neg, bytes)
  | 12 => .ok (.unary .not, bytes)
  | 13 => .ok (.unary .bitNot, bytes)
  | 14 => .ok (.binary .bitAnd, bytes)
  | 15 => .ok (.binary .bitOr, bytes)
  | 16 => .ok (.binary .bitXor, bytes)
  | 17 => .ok (.binary .shl, bytes)
  | 18 => .ok (.binary .shr, bytes)
  | 19 => .ok (.binary .eq, bytes)
  | 20 => .ok (.binary .ne, bytes)
  | 21 => .ok (.binary .lt, bytes)
  | 22 => .ok (.binary .le, bytes)
  | 23 => .ok (.binary .gt, bytes)
  | 24 => .ok (.binary .ge, bytes)
  | 25 => .ok (.concat, bytes)
  | 26 => dataType.part .convert bytes
  | 27 => dataType.part .unbox bytes
  | 28 => Codec.word32.part .jump bytes
  | 29 => Codec.word32.part .jumpIfFalse bytes
  | 30 => Codec.word32.part .jumpIfTrue bytes
  | 31 => (Codec.word16.pair Codec.word16).part (fun p => .call p.1 p.2) bytes
  | 32 => routine.part .routine bytes
  | 33 => .ok (.ret, bytes)
  | 34 => .ok (.retVoid, bytes)
  | _ => .ok (.throw, bytes)

end Instr

def instr : Codec Instr :=
  .choice 36 Instr.number Instr.payload Instr.read

/-- The fields of a method in the order of the layout. -/
def method : Codec Method :=
  (Codec.string.pair <| Codec.bool.pair <| Codec.bool.pair <| dataType.list.pair <|
    Codec.string.list.pair <| dataType.pair <| Codec.word16.pair <| literal.array.pair
      instr.array).map
    (fun (name, isPublic, isStatic, params, paramNames, result, locals, literals, code) =>
      { name, isPublic, isStatic, params, paramNames, result, locals, literals, code })
    fun m =>
      (m.name, m.isPublic, m.isStatic, m.params, m.paramNames, m.result, m.locals, m.literals,
        m.code)

def cls : Codec Class :=
  (Codec.string.pair method.array).map (fun (name, methods) => { name, methods }) fun c =>
    (c.name, c.methods)

def module : Codec Module :=
  (Codec.string.pair cls.array).map (fun (name, classes) => { name, classes }) fun m =>
    (m.name, m.classes)

end Scriptlet.Image
