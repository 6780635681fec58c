import Scriptlet.Code.Instr
import Scriptlet.Typing.StaticType

namespace Scriptlet

/-!
# Conversions between types

An implicit conversion happens wherever a value is stored, passed or returned; a cast allows more.
Between reference types a value stays as it is, since every value carries its own type.
-/

inductive Conversion where
  | identity
  /-- To a reference type: values are boxed, null and exceptions stay as they are. -/
  | reference
  /-- Between numbers and characters. -/
  | numeric
  /-- The checked step down from `object`. -/
  | unbox
  deriving DecidableEq

namespace Conversion

/-- The instruction that converts the top of the stack; nothing is to be done between references. -/
def instr (target : DataType) : Conversion → Code.Instr
  | numeric => .convert target
  | unbox => .unbox target
  | identity | reference => .nop

/-- Whether a type holds an integer without loss, for the types to which constants are narrowed. -/
def narrowsTo (n : Int) : DataType → Bool
  | .byte => decide (0 ≤ n ∧ n ≤ 255)
  | .short => decide (-32768 ≤ n ∧ n ≤ 32767)
  | _ => false

/-- The implicit conversion of an operand to a type, if there is one. -/
def implicit? (o : Operand) (target : DataType) : Option Conversion :=
  match o.type with
  | .unknown => some identity
  | .null => if target.isReference then some reference else none
  | .of source =>
      if source = target then some identity
      else if source.widensTo target then some (if target.isNumeric then numeric else reference)
      else
        match source, o.constant with
        | .int, some n => if narrowsTo n target then some numeric else none
        | _, _ => none

/-- The conversion that a cast makes, if there is one. -/
def explicit? (o : Operand) (target : DataType) : Option Conversion :=
  match implicit? o target, o.type with
  | some c, _ => some c
  | none, .of source =>
      if source.isArithmetic && target.isArithmetic then some numeric
      else if source = .object ∧ target ≠ .void then some unbox
      else none
  | none, _ => none

/-- Whether a cast of a constant is in the range of its target. -/
def constantInRange (n : Int) : DataType → Bool
  | .char => decide (0 ≤ n ∧ n ≤ 65535)
  | .byte => narrowsTo n .byte
  | .short => narrowsTo n .short
  | _ => true

@[simp] theorem implicit?_self (t : DataType) (n : Option Int) :
    implicit? ⟨.of t, n⟩ t = some identity := by
  simp [implicit?]

/-- Whatever converts implicitly can be cast. -/
theorem explicit?_of_implicit? {o : Operand} {t : DataType} {c : Conversion}
    (h : implicit? o t = some c) : explicit? o t = some c := by
  simp [explicit?, h]

end Conversion

end Scriptlet
