import Scriptlet.DataType

namespace Scriptlet

/-!
# Static types

What is known of an expression before it runs. The literal `null` has a type of its own until it
meets a reference type, and an expression about which something was reported has an unknown one, so
that nothing more is reported about it.
-/

inductive StaticType where
  | of (t : DataType)
  | null
  | unknown
  deriving DecidableEq

namespace StaticType

def text : StaticType → String
  | of t => t.keyword
  | null => "<null>"
  | unknown => "?"

def dataType? : StaticType → Option DataType
  | of t => some t
  | _ => none

def isReference : StaticType → Bool
  | of t => t.isReference
  | null => true
  | unknown => false

@[simp] theorem dataType?_of (t : DataType) : (of t).dataType? = some t := rfl

end StaticType

/-- The static type of an expression, and its value if it is an `int` constant. -/
structure Operand where
  type : StaticType
  constant : Option Int
  deriving DecidableEq

/-- An operand of which only the type is known. -/
def Operand.ofType (t : StaticType) : Operand :=
  ⟨t, none⟩

namespace DataType

/-- Numbers and characters. -/
def isArithmetic (t : DataType) : Bool :=
  t.isNumeric || t == char

/-- Integers and characters. -/
def isWhole (t : DataType) : Bool :=
  t.isIntegral || t == char

/-- The type in which an operator works on one operand of a type. -/
def promoted? : DataType → Option DataType
  | byte | short | char | int => some int
  | long => some long
  | float => some float
  | double => some double
  | _ => none

/-- The type in which an operator works on two operands: the later one of their promotions along
`int`, `long`, `float`, `double`. -/
def commonType? (s t : DataType) : Option DataType :=
  match s.promoted?, t.promoted? with
  | some s, some t =>
      if s = double ∨ t = double then some double
      else if s = float ∨ t = float then some float
      else if s = long ∨ t = long then some long
      else some int
  | _, _ => none

theorem isArithmetic_iff_promoted? (t : DataType) : t.isArithmetic = t.promoted?.isSome := by
  cases t <;> rfl

end DataType

end Scriptlet
