import Scriptlet.Machine.Conversion

namespace Scriptlet.Machine

/-!
# Argument binding

An argument list fits a method if it has one value per parameter and each value's type widens to the
type of its parameter.
-/

inductive BindError where
  | arity (method : String) (expected found : Nat)
  | mismatch (position : Nat) (expected : DataType) (found : String)
  deriving DecidableEq

def BindError.message : BindError → String
  | arity method expected found =>
      "method '" ++ method ++ "' takes " ++ expected.repr ++ " arguments but " ++ found.repr
        ++ " were supplied"
  | mismatch position expected found =>
      "argument " ++ (position + 1).repr ++ ": cannot convert from '" ++ found ++ "' to '"
        ++ expected.keyword ++ "'"

/-- Widens arguments to parameter types, counting positions from `position`. -/
def widenAll (position : Nat) : List Value → List DataType → Except BindError (List Value)
  | v :: args, t :: params =>
      match widen v t with
      | none => .error (.mismatch position t v.dataType.keyword)
      | some w => (widenAll (position + 1) args params).map (w :: ·)
  | _, _ => .ok []

def bindArguments (m : Code.Method) (args : List Value) : Except BindError (List Value) :=
  if args.length = m.params.length then widenAll 0 args m.params
  else .error (.arity m.signature m.params.length args.length)

end Scriptlet.Machine
