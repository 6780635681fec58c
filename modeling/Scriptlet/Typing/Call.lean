import Scriptlet.Typing.Check

namespace Scriptlet.Typing

/-!
# Checking names, members and calls

A name means a variable first, then a class of the program, then a name of the catalogue. Of the
overloads of a method with the right number of parameters, the first one that takes the arguments is
called.
-/

open Text (Span)
open Scriptlet.Tree (Ident)

/-- What an expression stands for if it is no value. Variables hide the names of types. -/
def owner? (e : Tree.Expr) : Check (Option Owner) := do
  let names := (← read).signatures.names
  match e with
  | .type t _ => return some (.type t.toDataType)
  | .name name _ => return if (← lookup? name).isSome then none else names.owner? name
  | .member (.name space _) name _ =>
      if space = "System" ∧ (← lookup? space).isNone ∧ (names.class? space).isNone then
        return Catalogue.owner? name.name
      else return none
  | _ => return none

def checkName (name : String) (span : Span) : Check Typed := do
  let context ← read
  match ← lookup? name with
  | some l => return .of (.load l.slot) l.type
  | none =>
      match context.cls.method? name with
      | some (_, m) => wrong (.methodAsValue (context.cls.describe m)) span
      | none =>
          if (context.signatures.names.owner? name).isSome then wrong (.typeAsValue name) span
          else if name = "System" then wrong (.namespaceAsValue name) span
          else wrong (.unknownName name) span

/-- A member of an owner, as a value. -/
def checkStaticMember (owner : Owner) (name : Ident) : Check Typed := do
  let signatures := (← read).signatures
  match Catalogue.constant? owner name.name with
  | some (l, t) => return .of (.literal l) t
  | none =>
      let isMethod :=
        match owner with
        | .cls i => (signatures.classes[i]?.bind (·.method? name.name)).isSome
        | _ => (Catalogue.staticMethods? owner name.name).isSome
      let text := signatures.ownerText owner
      if isMethod then wrong (.methodAsValue (text ++ "." ++ name.name)) name.span
      else wrong (.noMember text name.name) name.span

/-- A member of a value, as a value. -/
def checkValueMember (receiver : Check Typed) (name : Ident) : Check Typed := do
  let r ← receiver
  match r.type with
  | .unknown => return .unknown
  | .null => wrong (.unaryOperand "." .null) name.span
  | .of t =>
      match Catalogue.property? t name.name with
      | some (routine, result) => return .of (.routine routine [r.expr]) result
      | none =>
          if (Catalogue.methods? t name.name).isSome then
            wrong (.methodAsValue (t.keyword ++ "." ++ name.name)) name.span
          else wrong (.noMember t.keyword name.name) name.span

/-- Arguments converted to the types of parameters, one after the other. -/
def checkArgs (place : Nat) : List Part → List DataType → Check (List Core.Expr)
  | p :: ps, t :: ts => do
      let a ← p.check
      let e ←
        match Conversion.implicit? a.operand t with
        | some c => pure (.convert c t a.expr)
        | none => do
            report (.argument place a.type t) p.span
            pure a.expr
      return e :: (← checkArgs (place + 1) ps ts)
  | _, _ => return []

/-- Whether an overload takes operands. -/
def takes (o : Overload) (args : List Operand) : Bool :=
  (args.zip o.params).all fun (a, t) => (Conversion.implicit? a t).isSome

/-- Checked arguments converted to the types of the parameters of an overload. -/
def settled (args : List Typed) (params : List DataType) : List Core.Expr :=
  (args.zip params).map fun (a, t) =>
    .settle ((Conversion.implicit? a.operand t).getD .identity) t a.expr

/-- Reports the arguments that the parameters do not take. -/
def reportArgs (place : Nat) : List (Span × Typed) → List DataType → Check Unit
  | (span, a) :: rest, t :: ts => do
      if (Conversion.implicit? a.operand t).isNone then
        report (.argument place a.type t) span
      reportArgs (place + 1) rest ts
  | _, _ => return ()

/-- A call of a method of the catalogue. If more than one overload has the right number of
parameters, all arguments are checked before one is chosen. -/
def checkOverloads (name : Ident) (overloads : List Overload) (receiver : List Core.Expr)
    (args : List Part) : Check Typed :=
  match overloads.filter (·.params.length == args.length) with
  | [] => wrong (.argumentCount name.name args.length) name.span
  | [o] => do
      let es ← checkArgs 0 args o.params
      return .of (.routine o.routine (receiver ++ es)) o.result
  | first :: others => do
      let ts ← args.mapM Part.check
      match (first :: others).find? (takes · (ts.map Typed.operand)) with
      | some o => return .of (.routine o.routine (receiver ++ settled ts o.params)) o.result
      | none => do
          reportArgs 0 ((args.map Part.span).zip ts) first.params
          return .unknown

/-- A call of a method of the program. A method that is not static is called by its name alone, and
from methods that are not static. -/
def checkMethodCall (clsIndex : Nat) (cls : ClassSignature) (methodIndex : Nat)
    (m : MethodSignature) (qualified : Bool) (args : List Part) (span : Span) : Check Typed := do
  if !m.isStatic && (qualified || (← read).method.isStatic) then
    wrong (.noObject (cls.describe m)) span
  else if args.length ≠ m.params.length then
    wrong (.argumentCount m.name args.length) span
  else
    let es ← checkArgs 0 args m.params
    return .of (.call (.ofPlace clsIndex methodIndex) es) m.result

/-- A call by a name alone. -/
def checkSimpleCall (name : String) (span : Span) (args : List Part) : Check Typed := do
  let context ← read
  if (← lookup? name).isSome then wrong .methodNameExpected span
  else
    match context.cls.method? name with
    | some (i, m) => checkMethodCall context.clsIndex context.cls i m false args span
    | none => wrong (.unknownName name) span

/-- A call of a method of an owner. -/
def checkStaticCall (owner : Owner) (name : Ident) (args : List Part) : Check Typed := do
  let signatures := (← read).signatures
  let missing := wrong (.noMember (signatures.ownerText owner) name.name) name.span
  match owner with
  | .cls i =>
      match signatures.classes[i]? with
      | some c =>
          match c.method? name.name with
          | some (k, m) => checkMethodCall i c k m true args name.span
          | none => missing
      | none => missing
  | _ =>
      match Catalogue.staticMethods? owner name.name with
      | some overloads => checkOverloads name overloads [] args
      | none => missing

/-- A call of a method of a value. -/
def checkValueCall (receiver : Check Typed) (name : Ident) (args : List Part) : Check Typed := do
  let r ← receiver
  match r.type with
  | .unknown => return .unknown
  | .null => wrong (.unaryOperand "." .null) name.span
  | .of t =>
      match Catalogue.methods? t name.name with
      | some overloads => checkOverloads name overloads [r.expr] args
      | none =>
          if (Catalogue.property? t name.name).isSome then
            wrong (.notInvocable t name.name) name.span
          else wrong (.noMember t.keyword name.name) name.span

/-- A new exception, with a message or with that of its class. -/
def checkNew (type : Tree.TypeRef) (args : List Part) (span : Span) : Check Typed := do
  match ← resolve? type with
  | none => return .unknown
  | some t =>
      match t, args with
      | .exception c, [] => return .of (.routine (.newDefault c) []) t
      | .exception c, [message] => do
          let es ← checkArgs 0 [message] [.string]
          return .of (.routine (.newException c) es) t
      | _, _ => wrong (.noConstructor t args.length) span

end Scriptlet.Typing
