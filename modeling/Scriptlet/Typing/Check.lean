import Scriptlet.Core
import Scriptlet.Typing.Scope

namespace Scriptlet.Typing

/-!
# Checking

The checking of a method body turns the tree into a core program and reports what is wrong on the
way. A part that is wrong stands as `null` of unknown type, so the rest is still checked; what comes
out is used only if nothing was reported.
-/

open Text (Span)

/-- The method whose body is checked. -/
structure Context where
  signatures : Signatures
  /-- The place of its class. -/
  clsIndex : Nat
  cls : ClassSignature
  method : MethodSignature

/-- The visible variables, and the draft in which slots are reserved for them. -/
structure Variables where
  scopes : Scopes
  draft : Code.Draft

abbrev Check :=
  ReaderT Context (StateT Variables Reporting)

/-- A checked expression. -/
structure Typed where
  expr : Core.Expr
  operand : Operand

namespace Typed

def type (t : Typed) : StaticType :=
  t.operand.type

/-- An expression about which something was reported. -/
def unknown : Typed :=
  ⟨.literal .null, .ofType .unknown⟩

/-- An expression of a type that is no constant. -/
def of (e : Core.Expr) (t : DataType) : Typed :=
  ⟨e, .ofType (.of t)⟩

end Typed

/-- A part of an expression that is yet to be checked. -/
structure Part where
  span : Span
  check : Check Typed

/-- Reports an error in an expression. -/
def wrong (e : SemanticError) (span : Span) : Check Typed := do
  report e span
  return .unknown

def lookup? (name : String) : Check (Option Local) :=
  return (← get).scopes.lookup? name

/-- Runs a check in a scope of its own. -/
def inScope {α : Type} (c : Check α) : Check α := do
  modify fun v => { v with scopes := v.scopes.push }
  let a ← c
  modify fun v => { v with scopes := v.scopes.pop }
  return a

def Redeclaration.error (name : String) : Redeclaration → SemanticError
  | .sameScope => .declaredTwice name
  | .enclosingScope => .hidesEnclosing name

/-- Reserves a slot. -/
def reserve : Check UInt16 :=
  modifyGet fun v =>
    let (slot, draft) := Code.Drafting.reserve.run v.draft
    (slot, { v with draft })

/-- Declares a variable in the innermost scope; it gets a slot even if its name is taken. -/
def declare (name : Tree.Ident) (t : DataType) : Check UInt16 := do
  let slot ← reserve
  match (← get).scopes.declare name.name ⟨slot, t⟩ with
  | .ok scopes => modify fun v => { v with scopes }
  | .error r => report (Redeclaration.error name.name r) name.span
  return slot

/-- Why an operand does not convert to a type. -/
def conversionError (o : Operand) (target : DataType) : SemanticError :=
  if o.type = .null then .nullAsValue target
  else .noConversion o.type target (Conversion.explicit? o target).isSome

/-- The expression converted to a type. -/
def Typed.converted (t : Typed) (target : DataType) (span : Span) : Check Core.Expr :=
  match Conversion.implicit? t.operand target with
  | some c => return .convert c target t.expr
  | none => do
      report (conversionError t.operand target) span
      return t.expr

/-- A part checked and converted to a type. -/
def Part.as (p : Part) (target : DataType) : Check Core.Expr := do
  (← p.check).converted target p.span

/-- The type that a reference means, if it means one. -/
def resolve? (t : Tree.TypeRef) : Check (Option DataType) := do
  (← read).signatures.names.resolved? t

end Scriptlet.Typing
