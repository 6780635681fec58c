import Scriptlet.Typing.Reachability
import Scriptlet.Typing.Stmt

namespace Scriptlet.Typing

/-!
# Checking programs
-/

/-- Declares parameters, each in the next slot. Of two parameters of one name, which are reported
with the signature, the name means the first one. -/
def declareParams : List (String × DataType) → Check Unit
  | [] => return ()
  | (name, t) :: rest => do
      let slot ← reserve
      modify fun v =>
        match v.scopes.declare name ⟨slot, t⟩ with
        | .ok scopes => { v with scopes }
        | .error _ => v
      declareParams rest

/-- Checks the body of a method. If the method has a result, the end of the body must be out of
reach. -/
def checkBody (m : Tree.Method) : Check (Core.Stmt × Bool) := do
  let context ← read
  let s := context.method
  let body ← inScope do
    declareParams (s.paramNames.zip s.params)
    checkStmt false (.block m.body.body m.body.span)
  let ends := (Tree.reachBlock true m.body.body).ends
  if ends && s.result != .void then
    report (.missingReturn (context.cls.describe s)) m.name.span
  return (body, ends)

def checkMethod (context : Context) (m : Tree.Method) : Reporting Core.Method := do
  let ((body, ends), final) ← (checkBody m context).run ⟨.empty, .empty⟩
  return ⟨context.method, final.draft, body, ends⟩

def checkClass (signatures : Signatures) (index : Nat) (s : ClassSignature) (c : Tree.Class) :
    Reporting Core.Class := do
  let methods ← (s.methods.zip c.methods).mapM fun (signature, m) =>
    checkMethod ⟨signatures, index, s, signature⟩ m
  return ⟨s.name, methods⟩

def checkSource (s : Tree.Source) : Reporting (List Core.Class) := do
  let signatures ← Signatures.ofSource s
  (signatures.classes.zip s.classes).zipIdx.mapM fun ((signature, c), index) =>
    checkClass signatures index signature c

end Scriptlet.Typing
