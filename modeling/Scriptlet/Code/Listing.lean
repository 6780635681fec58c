import Scriptlet.Code.Instr

namespace Scriptlet.Code

/-!
# Listing

The notation of instructions in reports on malformed programs: the name of the instruction with its
operands in parentheses, `Const(1)`, or named, `Call { class: 0, method: 3 }`.
-/

/-- `name(operand)`. -/
def applied (name operand : String) : String :=
  name ++ "(" ++ operand ++ ")"

def typeListing : DataType → String
  | .void => "Void"
  | .bool => "Bool"
  | .exception c => applied "Exception" c.name
  | t => t.shortName

def Routine.listing (r : Routine) : String :=
  match r with
  | parse t | convertTo t => applied r.name (typeListing t)
  | concat n => applied r.name n.toNat.repr
  | newException c | newDefault c => applied r.name c.name
  | _ => r.name

def Instr.listing (i : Instr) : String :=
  match i with
  | const n | jump n | jumpIfFalse n | jumpIfTrue n => applied i.name n.toNat.repr
  | load n | store n => applied i.name n.toNat.repr
  | convert t | unbox t => applied i.name (typeListing t)
  | call c m => "Call \x7b class: " ++ c.toNat.repr ++ ", method: " ++ m.toNat.repr ++ " \x7d"
  | routine r => applied i.name r.listing
  | _ => i.name

end Scriptlet.Code
