import Scriptlet.Proofs.Meaning.Tree
import Scriptlet.Typing.Source

namespace Scriptlet.Tree

/-!
# The meaning of statements and programs

Loops and calls take fuel. A method is called with its arguments in its parameters, and every active
call counts against the limit.
-/

open Code (Handle)
open Typing (Context)

/-- The types with one more variable, unless its name is taken. -/
def declare? (types : Types) (name : String) (t : DataType) : Option Types :=
  if (types name).isSome then none else some fun n => if n = name then some t else types n

section

variable (ctx : Context) (calls : Calls) (fuel : Nat)

def Expr.test? (types : Types) (e : Expr) : Option (Eval Memory Bool) := do
  let m ← e.meaning? ctx calls types
  m.test?

/-- The truth of a condition that may be missing, and then holds. -/
def testOf? (types : Types) : Option Expr → Option (Eval Memory Bool)
  | none => some (return true)
  | some e => e.test? ctx calls types

/-- Expressions that run as statements, one after the other. -/
def actions? (types : Types) : List Expr → Option (Eval Memory Unit)
  | [] => some (return ())
  | e :: es => do
      let m ← e.meaning? ctx calls types
      let rest ← actions? types es
      return do
        let _ ← m.value
        rest

/-- The type that a declaration states, if it states one. -/
def statedType? : Option TypeRef → Option (Option DataType)
  | none => some none
  | some r =>
      match ctx.signatures.names.resolve r with
      | .ok .void | .error _ => none
      | .ok t => some (some t)

/-- The type and the first value of a variable. -/
def Declarator.begin? (types : Types) (type : Option DataType) (d : Declarator) :
    Option (DataType × Eval Memory Value) :=
  match type, d.value with
  | some t, some e => do
      let m ← e.meaning? ctx calls types
      let v ← m.as? t
      return (t, v)
  | some t, none => some (t, return (Code.Literal.defaultOf t).toValue)
  | none, some e => do
      let m ← e.meaning? ctx calls types
      let t ← m.type.dataType?
      if t = .void then none else return (t, m.value)
  | none, none => none

def declareAll? (type : Option DataType) : Types → List Declarator →
    Option (Types × Eval Memory Unit)
  | types, [] => some (types, return ())
  | types, d :: ds => do
      let (t, value) ← d.begin? ctx calls types type
      let inner ← declare? types d.name.name t
      let (outer, rest) ← declareAll? type inner ds
      return (outer, do
        let v ← value
        Eval.update (·.assign d.name.name v)
        rest)

def LocalDecl.meaning? (types : Types) (d : LocalDecl) : Option (Types × Eval Memory Unit) := do
  let type ← statedType? ctx d.type
  declareAll? ctx calls type types d.declarators

def ForInit.meaning? (types : Types) : ForInit → Option (Types × Eval Memory Unit)
  | .nothing => some (types, return ())
  | .locals d => d.meaning? ctx calls types
  | .exprs es => do
      let run ← actions? ctx calls types es
      return (types, run)

mutual

def Stmt.meaning? (types : Types) : Stmt → Option (Types × Eval Memory Ending)
  | .block body _ => do
      let (_, run) ← blockMeaning? types body
      return (types, run)
  | .empty _ => some (types, return .normal)
  | .locals d _ => do
      let (outer, run) ← d.meaning? ctx calls types
      return (outer, do
        run
        return .normal)
  | .expr e _ => do
      let m ← e.meaning? ctx calls types
      return (types, do
        let _ ← m.value
        return .normal)
  | .cond condition yes none _ => do
      let test ← condition.test? ctx calls types
      let (_, first) ← yes.meaning? types
      return (types, do
        if ← test then first else return .normal)
  | .cond condition yes (some no) _ => do
      let test ← condition.test? ctx calls types
      let (_, first) ← yes.meaning? types
      let (_, second) ← no.meaning? types
      return (types, do
        if ← test then first else second)
  | .loop condition body _ => do
      let test ← condition.test? ctx calls types
      let (_, run) ← body.meaning? types
      return (types, Eval.loop test run (return ()) fuel)
  | .doLoop body condition _ => do
      let (_, run) ← body.meaning? types
      let test ← condition.test? ctx calls types
      return (types, Eval.doLoop run test fuel)
  | .forLoop init condition steps body _ => do
      let (inner, start) ← init.meaning? ctx calls types
      let test ← testOf? ctx calls inner condition
      let (_, run) ← body.meaning? inner
      let advance ← actions? ctx calls inner steps
      return (types, do
        start
        Eval.loop test run advance fuel)
  | .ret none _ => if ctx.method.result = .void then some (types, return .ret .void) else none
  | .ret (some e) _ => do
      let m ← e.meaning? ctx calls types
      let value ← m.as? ctx.method.result
      return (types, do
        let v ← value
        return .ret v)
  | .throw e _ => do
      let m ← e.meaning? ctx calls types
      return (types, do
        let v ← m.value
        Eval.fail (Machine.throwFault v))
  | .leave _ => some (types, return .leave)
  | .next _ => some (types, return .next)

/-- Statements, one behind the other, until one ends in another way than at its end. -/
def blockMeaning? (types : Types) : List Stmt → Option (Types × Eval Memory Ending)
  | [] => some (types, return .normal)
  | s :: rest => do
      let (inner, first) ← s.meaning? types
      let (outer, others) ← blockMeaning? inner rest
      return (outer, do
        match ← first with
        | .normal => others
        | ending => return ending)

end

/-- The types of the parameters of a method. -/
def paramTypes (s : MethodSignature) : Types :=
  fun n => (s.paramNames.zip s.params).lookup n

/-- Runs the body of a method on arguments; nothing if the body makes no sense. -/
def Method.run? (m : Method) (args : List Value) : Option (Eval String Value) := do
  let (_, run) ← blockMeaning? ctx calls fuel (paramTypes ctx.method) m.body.body
  return fun output =>
    (run (.ofArgs ctx.method.paramNames args output)).map fun (r, m) =>
      (r.map Ending.answer, m.output)

end

namespace Source

def signatures (s : Source) : Signatures :=
  (Signatures.ofSource s).value

/-- The method of a handle, with the context of its body. -/
def method? (s : Source) (h : Handle) : Option (Context × Method) := do
  let c ← s.classes[h.cls.toNat]?
  let cls ← s.signatures.classes[h.cls.toNat]?
  let m ← c.methods[h.method.toNat]?
  let method ← cls.methods[h.method.toNat]?
  return (⟨s.signatures, h.cls.toNat, cls, method⟩, m)

/-- Every method has a meaning. -/
def Meaningful (s : Source) : Prop :=
  ∀ h ctx m, s.method? h = some (ctx, m) → ∀ calls fuel args,
    (m.run? ctx calls fuel args).isSome = true

/-- Calls a method while `depth` calls are active. -/
def invoke (s : Source) (limit : Nat) : Nat → Nat → Calls
  | 0, _, _, _ => Eval.exhausted
  | fuel + 1, depth, h, args =>
      if limit ≤ depth then Eval.fail (.failed .stackExhausted)
      else
        match s.method? h with
        | none => Eval.exhausted
        | some (ctx, m) =>
            (m.run? ctx (s.invoke limit fuel (depth + 1)) fuel args).getD Eval.exhausted

end Source

end Scriptlet.Tree
