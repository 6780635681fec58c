import Scriptlet.Code.Instr
import Scriptlet.Typing.StaticType

namespace Scriptlet

/-!
# Operators on static types

Which operands an operator takes, and the type of its result. A sum with a text on either side is a
concatenation.
-/

inductive Combiner where
  | concat
  | operator (op : BinaryOp)
  deriving DecidableEq

namespace Combiner

def instr : Combiner → Code.Instr
  | concat => .concat
  | operator op => .binary op

/-- Whether two operands can be compared for equality: numbers, truth values, or related
references. -/
def equatable : StaticType → StaticType → Bool
  | .null, t | t, .null => t.isReference
  | .of s, .of t =>
      (s.isArithmetic && t.isArithmetic) || (s == .bool && t == .bool) ||
        (s.isReference && t.isReference && (s.widensTo t || t.widensTo s))
  | _, _ => false

/-- Whether a value can be part of a concatenation. -/
def concatenable (t : StaticType) : Bool :=
  t != .of .void && t != .unknown

/-- The result of an operator on data of two types, equality and concatenation apart. -/
def resultType? (op : BinaryOp) (s t : DataType) : Option DataType :=
  match op with
  | .add | .sub | .mul | .div | .rem => s.commonType? t
  | .shl | .shr =>
      if s.isWhole ∧ t.isWhole ∧ t.promoted? = some .int then s.promoted? else none
  | .lt | .le | .gt | .ge => (s.commonType? t).map fun _ => .bool
  | .bitAnd | .bitOr | .bitXor =>
      if s = .bool ∧ t = .bool then some .bool
      else if s.isWhole ∧ t.isWhole then s.commonType? t
      else none
  | .eq | .ne => none

/-- What an operator does with operands of two types, and the type of its result. -/
def of? (op : BinaryOp) (s t : StaticType) : Option (Combiner × DataType) :=
  if op = .add ∧ (s = .of .string ∨ t = .of .string) then
    if concatenable s && concatenable t then some (concat, .string) else none
  else if op = .eq ∨ op = .ne then
    if equatable s t then some (operator op, .bool) else none
  else
    match s, t with
    | .of s, .of t => (resultType? op s t).map (operator op, ·)
    | _, _ => none

/-- The result of an operator with one operand. -/
def unaryType? (op : UnaryOp) (t : DataType) : Option DataType :=
  match op with
  | .neg => t.promoted?
  | .not => if t = .bool then some .bool else none
  | .bitNot => if t.isWhole then t.promoted? else none

end Combiner

end Scriptlet
