import Scriptlet.Proofs.Meaning.Eval
import Scriptlet.Proofs.Typing.Elaboration

namespace Scriptlet.Tree

/-!
# The meaning of syntax trees

What a program does, read off its syntax tree. An expression means a computation, together with what
is known of its value before; a statement means a computation that ends in one of several ways,
together with the variables behind it. Variables keep their names, and no two visible ones share a
name. A tree that makes no sense has no meaning.
-/

open Code (Handle)
open Typing (Context ownerOf? literal? integer? overload? compoundConversion? promotion stepOp
  branchConversion?)

/-- The variables of an active call, and what the program has printed. -/
structure Memory where
  vars : String → Value
  output : String

namespace Memory

def assign (m : Memory) (name : String) (v : Value) : Memory :=
  ⟨fun n => if n = name then v else m.vars n, m.output⟩

@[simp] theorem vars_assign (m : Memory) (name n : String) (v : Value) :
    (m.assign name v).vars n = if n = name then v else m.vars n := rfl

/-- The variables of a call with its arguments. -/
def ofArgs (names : List String) (args : List Value) (output : String) : Memory :=
  ⟨fun n => ((names.zip args).lookup n).getD .null, output⟩

end Memory

/-- The types of the visible variables. -/
abbrev Types :=
  String → Option DataType

/-- A computation that can only print. -/
def printing {α : Type} (x : Eval String α) : Eval Memory α :=
  Eval.onPart Memory.output (fun m output => ⟨m.vars, output⟩) x

structure Meaning where
  operand : Operand
  value : Eval Memory Value

namespace Meaning

def type (m : Meaning) : StaticType :=
  m.operand.type

/-- The value, worked on by an operation. -/
def andThen (m : Meaning) (f : Value → Except Machine.Fault Value) : Eval Memory Value := do
  let v ← m.value
  Eval.ofExcept (f v)

/-- The value with an implicit conversion to a type. -/
def as? (m : Meaning) (t : DataType) : Option (Eval Memory Value) := do
  let c ← Conversion.implicit? m.operand t
  return m.andThen (c.apply t)

/-- The truth of a condition. -/
def test? (m : Meaning) : Option (Eval Memory Bool) := do
  let value ← m.as? .bool
  return do
    let v ← value
    Eval.ofExcept (condition v)

/-- The type of a conditional: one branch may convert to the type of the other. -/
def common? (a b : StaticType) : Option StaticType :=
  if a = b then some a
  else
    match branchConversion? a b, branchConversion? b a with
    | some _, none => some b
    | none, some _ => some a
    | _, _ => none

/-- The value of a branch of a conditional of a type. -/
def toward? (m : Meaning) (t : StaticType) : Option (Eval Memory Value) :=
  if m.type = t then some m.value
  else do
    let (c, u) ← branchConversion? m.type t
    return m.andThen (c.apply u)

/-- Arguments for parameters, each converted before the next one is evaluated. -/
def args? : List Meaning → List DataType → Option (Eval Memory (List Value))
  | [], [] => some (return [])
  | m :: ms, t :: ts => do
      let first ← m.as? t
      let rest ← args? ms ts
      return do
        let v ← first
        let vs ← rest
        return v :: vs
  | _, _ => none

/-- A routine on arguments, which may have a receiver in front. -/
def ofRoutine (r : Code.Routine) (t : DataType) (args : Eval Memory (List Value)) : Meaning where
  operand := .ofType (.of t)
  value := do
    let vs ← args
    printing (perform r vs)

def ofMethod (calls : Calls) (h : Handle) (m : MethodSignature) (args : Eval Memory (List Value)) :
    Meaning where
  operand := .ofType (.of m.result)
  value := do
    let vs ← args
    printing (calls h vs)

def ofLiteral (k : Code.Literal) (o : Operand) : Meaning :=
  ⟨o, return k.toValue⟩

/-- A call of a method of the catalogue on a receiver, if it has one. -/
def overloaded? (os : List Overload) (receiver : Option Meaning) (ms : List Meaning) :
    Option Meaning := do
  let o ← overload? os (ms.map Meaning.operand)
  let args ← args? ms o.params
  match receiver with
  | none => return .ofRoutine o.routine o.result args
  | some r =>
      return .ofRoutine o.routine o.result do
        let v ← r.value
        let vs ← args
        return v :: vs

end Meaning

section

variable (ctx : Context) (calls : Calls)

mutual

def Expr.meaning? (types : Types) : Expr → Option Meaning
  | .literal l _ => do
      let (k, o) ← literal? l
      return .ofLiteral k o
  | .name name _ => do
      let t ← types name
      return ⟨.ofType (.of t), Eval.gets (·.vars name)⟩
  | .type _ _ => none
  | .member receiver name _ =>
      match ownerOf? ctx.signatures.names (types · |>.isSome) receiver with
      | some owner => do
          let (k, t) ← Catalogue.constant? owner name.name
          return .ofLiteral k (.ofType (.of t))
      | none => do
          let r ← receiver.meaning? types
          let s ← r.type.dataType?
          let (routine, t) ← Catalogue.property? s name.name
          return .ofRoutine routine t do
            let v ← r.value
            return [v]
  | .call (.name name _) args _ =>
      if (types name).isSome then none
      else do
        let (i, m) ← ctx.cls.method? name
        let ms ← meanings? types args
        let args ← Meaning.args? ms m.params
        return .ofMethod calls (.ofPlace ctx.clsIndex i) m args
  | .call (.member receiver name _) args _ => do
      let ms ← meanings? types args
      match ownerOf? ctx.signatures.names (types · |>.isSome) receiver with
      | some (.cls k) => do
          let c ← ctx.signatures.classes[k]?
          let (i, m) ← c.method? name.name
          let args ← Meaning.args? ms m.params
          return .ofMethod calls (.ofPlace k i) m args
      | some owner => do
          let os ← Catalogue.staticMethods? owner name.name
          Meaning.overloaded? os none ms
      | none => do
          let r ← receiver.meaning? types
          let s ← r.type.dataType?
          let os ← Catalogue.methods? s name.name
          Meaning.overloaded? os (some r) ms
  | .call _ _ _ => none
  | .index receiver index _ => do
      let r ← receiver.meaning? types
      let i ← index.meaning? types
      let place ← i.as? .int
      if r.type = .of .string then
        return .ofRoutine .charAt .char do
          let v ← r.value
          let w ← place
          return [v, w]
      else none
  | .new type args _ => do
      let ms ← meanings? types args
      match ctx.signatures.names.resolve type, ms with
      | .ok (.exception c), [] => return .ofRoutine (.newDefault c) (.exception c) (return [])
      | .ok (.exception c), [message] => do
          let args ← Meaning.args? [message] [.string]
          return .ofRoutine (.newException c) (.exception c) args
      | _, _ => none
  | .unary (.strict .neg) (.literal (.int value long) _) _ => do
      let (k, o) ← integer? (-value) long
      return .ofLiteral k o
  | .unary .plus operand _ => do
      let m ← operand.meaning? types
      let t ← m.type.dataType?
      let u ← t.promoted?
      return ⟨⟨.of u, m.operand.constant⟩, m.andThen ((promotion u t).apply u)⟩
  | .unary (.strict op) operand _ => do
      let m ← operand.meaning? types
      let t ← m.type.dataType?
      let u ← Combiner.unaryType? op t
      return ⟨.ofType (.of u), m.andThen (Machine.unary op)⟩
  | .binary .andAlso left right _ => do
      let l ← left.meaning? types
      let r ← right.meaning? types
      if l.type = .of .bool ∧ r.type = .of .bool then
        return {
          operand := .ofType (.of .bool)
          value := do
            let v ← l.value
            if ← Eval.ofExcept (condition v) then r.value else return .bool false }
      else none
  | .binary .orElse left right _ => do
      let l ← left.meaning? types
      let r ← right.meaning? types
      if l.type = .of .bool ∧ r.type = .of .bool then
        return {
          operand := .ofType (.of .bool)
          value := do
            let v ← l.value
            if ← Eval.ofExcept (condition v) then return .bool true else r.value }
      else none
  | .binary (.strict op) left right _ => do
      let l ← left.meaning? types
      let r ← right.meaning? types
      let (c, u) ← Combiner.of? op l.type r.type
      return {
        operand := .ofType (.of u)
        value := do
          let v ← l.value
          let w ← r.value
          Eval.ofExcept (c.apply v w) }
  | .assign none (.name name _) value _ => do
      let t ← types name
      let m ← value.meaning? types
      let value ← m.as? t
      return {
        operand := .ofType (.of t)
        value := do
          let v ← value
          Eval.update (·.assign name v)
          return v }
  | .assign (some op) (.name name _) value _ => do
      let t ← types name
      let m ← value.meaning? types
      let (k, u) ← Combiner.of? op (.of t) m.type
      let c ← compoundConversion? op u m.operand t
      return {
        operand := .ofType (.of t)
        value := do
          let old ← Eval.gets (·.vars name)
          let v ← m.value
          let new ← Eval.ofExcept (k.apply old v)
          let new ← Eval.ofExcept (c.apply t new)
          Eval.update (·.assign name new)
          return new }
  | .assign _ _ _ _ => none
  | .step increment isPrefix (.name name _) _ => do
      let t ← types name
      let u ← t.commonType? .int
      return {
        operand := .ofType (.of t)
        value := do
          let old ← Eval.gets (·.vars name)
          let new ← Eval.ofExcept (Machine.binary (stepOp increment) old (.int 1))
          let new ← Eval.ofExcept ((promotion u t).apply t new)
          Eval.update (·.assign name new)
          return if isPrefix then new else old }
  | .step _ _ _ _ => none
  | .conditional condition yes no _ => do
      let c ← condition.meaning? types
      let test ← c.test?
      let a ← yes.meaning? types
      let b ← no.meaning? types
      let t ← Meaning.common? a.type b.type
      let first ← a.toward? t
      let second ← b.toward? t
      return {
        operand := .ofType t
        value := do
          if ← test then first else second }
  | .cast type operand _ => do
      let m ← operand.meaning? types
      match ctx.signatures.names.resolve type with
      | .error _ => none
      | .ok t => do
          let c ← Conversion.explicit? m.operand t
          let constant := if t = .int then m.operand.constant else none
          return ⟨⟨.of t, constant⟩, m.andThen (c.apply t)⟩

def meanings? (types : Types) : List Expr → Option (List Meaning)
  | [] => some []
  | e :: es => do
      let m ← e.meaning? types
      let ms ← meanings? types es
      return m :: ms

end

end

section

variable {ctx : Context} {calls : Calls} {types : Types}

theorem Expr.meaning?_literal {l : Literal} {span : Text.Span} {k : Code.Literal} {o : Operand}
    (h : literal? l = some (k, o)) :
    Expr.meaning? ctx calls types (.literal l span) = some (.ofLiteral k o) := by
  rw [Expr.meaning?, h]
  rfl

theorem meanings?_cons {e : Expr} {es : List Expr} {m : Meaning} {ms : List Meaning}
    (hm : e.meaning? ctx calls types = some m) (hms : meanings? ctx calls types es = some ms) :
    meanings? ctx calls types (e :: es) = some (m :: ms) := by
  rw [meanings?, hm, hms]
  rfl

end

end Scriptlet.Tree
