import Scriptlet.Binary.Number
import Scriptlet.Typing.Check

namespace Scriptlet.Typing

/-!
# Checking literals and operators

Operands keep their types, since operators bring them to a common type when they run.
-/

open Text (Span)

/-- An integer literal with its sign: an `int` if it fits and is not marked as `long`, else a
`long`. -/
def checkInteger (n : Int) (long : Bool) (span : Span) : Check Typed :=
  if !long ∧ -2147483648 ≤ n ∧ n ≤ 2147483647 then
    return ⟨.literal (.int (Int32.ofInt n)), ⟨.of .int, some n⟩⟩
  else if -9223372036854775808 ≤ n ∧ n ≤ 9223372036854775807 then
    return .of (.literal (.long (Int64.ofInt n))) .long
  else wrong (.constantTooLarge n) span

def checkLiteral (l : Tree.Literal) (span : Span) : Check Typed :=
  match l with
  | .int value long => checkInteger value long span
  | .real x true => return .of (.literal (.float (Binary.narrow x))) .float
  | .real x false => return .of (.literal (.double x)) .double
  | .string s => return .of (.literal (.string s)) .string
  | .char c => return .of (.literal (.char c)) .char
  | .bool b => return .of (.literal (.bool b)) .bool
  | .null => return ⟨.literal .null, .ofType .null⟩

/-- A character of a text. -/
def checkIndex (receiver index : Part) : Check Typed := do
  let r ← receiver.check
  match r.type with
  | .unknown => do
      let _ ← index.check
      return .unknown
  | .of .string => do
      let i ← index.as .int
      return .of (.routine .charAt [r.expr, i]) .char
  | t => wrong (.noIndexing t) receiver.span

/-- The plus sign, which only brings its operand to the promoted type. -/
def checkPlus (operand : Check Typed) (span : Span) : Check Typed := do
  let e ← operand
  match e.type with
  | .unknown => return .unknown
  | .null => wrong (.unaryOperand "+" .null) span
  | .of t =>
      match t.promoted? with
      | some result =>
          let c : Conversion := if result = t then .identity else .numeric
          return ⟨.convert c result e.expr, ⟨.of result, e.operand.constant⟩⟩
      | none => wrong (.unaryOperand "+" (.of t)) span

def checkUnary (op : UnaryOp) (operand : Check Typed) (span : Span) : Check Typed := do
  let e ← operand
  let refused := wrong (.unaryOperand (Tree.Sign.strict op).symbol e.type) span
  match e.type with
  | .unknown => return .unknown
  | .null => refused
  | .of t =>
      match Combiner.unaryType? op t with
      | some result => return .of (.unary op e.expr) result
      | none => refused

def checkBinary (op : BinaryOp) (left right : Check Typed) (span : Span) : Check Typed := do
  let l ← left
  let r ← right
  if l.type = .unknown ∨ r.type = .unknown then return .unknown
  else
    match Combiner.of? op l.type r.type with
    | some (c, result) => return .of (.combine c l.expr r.expr) result
    | none => wrong (.binaryOperands op.symbol l.type r.type) span

/-- An operator that evaluates its right operand only if the left one does not decide. -/
def checkLogical (op : Tree.Operator) (make : Core.Expr → Core.Expr → Core.Expr)
    (left right : Check Typed) (span : Span) : Check Typed := do
  let l ← left
  let r ← right
  if l.type = .unknown ∨ r.type = .unknown then return .unknown
  else if l.type = .of .bool ∧ r.type = .of .bool then return .of (make l.expr r.expr) .bool
  else wrong (.binaryOperands op.symbol l.type r.type) span

/-- The variable that an expression names as the target of an assignment or a step. -/
def target? (target : Tree.Expr) (otherwise : SemanticError) : Check (Option Local) := do
  match target with
  | .name name span =>
      let context ← read
      match ← lookup? name with
      | some l => return some l
      | none =>
          let known :=
            (context.cls.method? name).isSome || (context.signatures.names.owner? name).isSome
          report (if known then otherwise else .unknownName name) span
          return none
  | _ => do
      report otherwise target.span
      return none

/-- The value that a compound assignment stores. It is narrowed back to the type of the variable if
the operand alone converts to that type. -/
def checkCompound (op : BinaryOp) (l : Local) (operand : Typed) (span : Span) :
    Check (Option Core.Expr) := do
  match Combiner.of? op (.of l.type) operand.type with
  | none => do
      report (.binaryOperands op.symbol (.of l.type) operand.type) span
      return none
  | some (c, result) =>
      let value : Core.Expr := .combine c (.load l.slot) operand.expr
      let o := Operand.ofType (.of result)
      match Conversion.implicit? o l.type with
      | some c => return some (.convert c l.type value)
      | none =>
          let narrows := Conversion.explicit? o l.type = some .numeric ∧
            ((Conversion.implicit? operand.operand l.type).isSome ∨ op = .shl ∨ op = .shr)
          if narrows then return some (.convert .numeric l.type value)
          else
            report (conversionError o l.type) span
            return none

def checkAssign (op : Option BinaryOp) (target : Tree.Expr) (value : Part) (span : Span) :
    Check Typed := do
  match ← target? target .notAssignable with
  | none => return .unknown
  | some l =>
      match op with
      | none => do
          let e ← value.as l.type
          return .of (.assign l.slot e) l.type
      | some op => do
          let operand ← value.check
          if operand.type = .unknown then return .unknown
          else
            match ← checkCompound op l operand span with
            | some e => return .of (.assign l.slot e) l.type
            | none => return .unknown

/-- A step of a variable by one. The value is the new one if the operator stands in front. -/
def checkStep (increment isPrefix : Bool) (target : Tree.Expr) : Check Typed := do
  match ← target? target .notSteppable with
  | none => return .unknown
  | some l =>
      match l.type.commonType? .int with
      | none =>
          let symbol := if increment then "++" else "--"
          wrong (.unaryOperand symbol (.of l.type)) target.span
      | some promoted =>
          let op : BinaryOp := if increment then .add else .sub
          let c : Conversion := if promoted = l.type then .identity else .numeric
          let e : Core.Expr :=
            if isPrefix then
              .assign l.slot (.convert c l.type
                (.combine (.operator op) (.load l.slot) (.literal (.int 1))))
            else .advance l.slot op c l.type
          return .of e l.type

/-- The conversion of one branch of a conditional to the type of the other one. Constants count as
any value of their type. -/
def branchConversion? (source target : StaticType) : Option (Conversion × DataType) :=
  match target with
  | .of t => (Conversion.implicit? (.ofType source) t).map (·, t)
  | _ => none

def checkConditional (condition : Part) (yes no : Check Typed) (span : Span) : Check Typed := do
  let c ← condition.as .bool
  let a ← yes
  let b ← no
  let kept (t : Typed) : Core.Expr := .settle .identity .object t.expr
  if a.type = .unknown ∨ b.type = .unknown then return .unknown
  else if a.type = b.type then return ⟨.choose c (kept a) (kept b), .ofType a.type⟩
  else
    match branchConversion? a.type b.type, branchConversion? b.type a.type with
    | some (toB, t), none => return ⟨.choose c (.settle toB t a.expr) (kept b), .ofType b.type⟩
    | none, some (toA, t) => return ⟨.choose c (kept a) (.settle toA t b.expr), .ofType a.type⟩
    | _, _ => wrong (.noCommonType a.type b.type) span

def checkCast (type : Tree.TypeRef) (operand : Part) : Check Typed := do
  let target? ← resolve? type
  let e ← operand.check
  match target?, e.type with
  | none, _ | _, .unknown => return .unknown
  | some target, _ =>
      let span := type.span.merge operand.span
      match Conversion.explicit? e.operand target with
      | none => wrong (.noCast e.type target) span
      | some c =>
          let constant := if target = .int then e.operand.constant else none
          let cast : Typed := ⟨.convert c target e.expr, ⟨.of target, constant⟩⟩
          match e.operand.constant with
          | some n =>
              if c = .numeric ∧ ¬ Conversion.constantInRange n target then
                wrong (.constantOutOfRange n target) span
              else return cast
          | none => return cast

end Scriptlet.Typing
