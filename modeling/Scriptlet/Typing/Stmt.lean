import Scriptlet.Typing.Expr

namespace Scriptlet.Typing

/-!
# Checking statements

Blocks, and the bodies of conditions and loops, have scopes of their own; a `for` has one around it
that holds the variables of its start.
-/

open Text (Span)

/-- The type that a declaration states; a type that is wrong counts as `object`. -/
def statedType (t : Tree.TypeRef) : Check DataType := do
  match ← resolve? t with
  | some .void => do
      report .voidVariable t.span
      return .object
  | some t => return t
  | none => return .object

/-- The type of a variable that is declared without one. -/
def inferredType (t : StaticType) (span : Span) : Check DataType :=
  match t with
  | .of .void => do
      report .inferredFromVoid span
      return .object
  | .null => do
      report .inferredFromNull span
      return .object
  | .of t => return t
  | .unknown => return .object

/-- The type and the first value of a variable. -/
def checkValue (type : Option DataType) (d : Tree.Declarator) : Check (DataType × Core.Expr) :=
  match type, d.value with
  | some t, some e => do
      return (t, ← (part e).as t)
  | some t, none => return (t, .literal (.defaultOf t))
  | none, some e => do
      let v ← checkExpr e
      return (← inferredType v.type e.span, v.expr)
  | none, none => do
      report .inferredFromNothing d.name.span
      return (.object, .literal .null)

def checkDeclarators (type : Option DataType) : List Tree.Declarator → Check (List Core.Stmt)
  | [] => return []
  | d :: ds => do
      let (t, e) ← checkValue type d
      let slot ← declare d.name t
      return .store slot e :: (← checkDeclarators type ds)

def checkLocals (l : Tree.LocalDecl) : Check (List Core.Stmt) := do
  let type ← l.type.mapM statedType
  match type, l.declarators with
  | none, _ :: second :: _ => report .severalInferred second.name.span
  | _, _ => pure ()
  checkDeclarators type l.declarators

/-- Whether an expression can stand as a statement. -/
def isAction : Tree.Expr → Bool
  | .assign _ _ _ _ | .step _ _ _ _ | .call _ _ _ | .new _ _ _ => true
  | _ => false

def checkAction (e : Tree.Expr) : Check Core.Stmt := do
  unless isAction e do
    report .notStatement e.span
  let t ← checkExpr e
  return .eval t.expr (t.type != .of .void)

def checkReturn (value : Option Tree.Expr) (span : Span) : Check Core.Stmt := do
  let context ← read
  match value, context.method.result with
  | some e, .void => do
      report (.valueFromVoid (context.cls.describe context.method)) span
      let _ ← checkExpr e
      return .ret none
  | some e, t => return .ret (some (← (part e).as t))
  | none, .void => return .ret none
  | none, t => do
      report (.valueRequired t) span
      return .ret none

/-- Whether a value of a type can be thrown. -/
def isThrowable : StaticType → Bool
  | .of (.exception _) | .null | .unknown => true
  | _ => false

def checkThrow (e : Tree.Expr) : Check Core.Stmt := do
  let t ← checkExpr e
  unless isThrowable t.type do
    report .notThrowable e.span
  return .throw t.expr

/-- A statement that is allowed only inside a loop. -/
def checkExit (inLoop : Bool) (s : Core.Stmt) (span : Span) : Check Core.Stmt := do
  unless inLoop do
    report .noLoop span
  return s

def checkInit : Tree.ForInit → Check (List Core.Stmt)
  | .nothing => return []
  | .locals l => checkLocals l
  | .exprs es => es.mapM checkAction

mutual

/-- Checks a statement, inside a loop or not. -/
def checkStmt (inLoop : Bool) : Tree.Stmt → Check Core.Stmt
  | .block body _ => inScope do
      return .block (← checkBlock inLoop body)
  | .empty _ => return .block []
  | .locals l _ => return .block (← checkLocals l)
  | .expr e _ => checkAction e
  | .cond condition yes none _ => do
      let c ← (part condition).as .bool
      let y ← inScope (checkStmt inLoop yes)
      return .cond c y none
  | .cond condition yes (some no) _ => do
      let c ← (part condition).as .bool
      let y ← inScope (checkStmt inLoop yes)
      let n ← inScope (checkStmt inLoop no)
      return .cond c y (some n)
  | .loop condition body _ => do
      let c ← (part condition).as .bool
      return .loop c (← inScope (checkStmt true body))
  | .doLoop body condition _ => do
      let b ← inScope (checkStmt true body)
      return .doLoop b (← (part condition).as .bool)
  | .forLoop init condition steps body _ => inScope do
      let first ← checkInit init
      let c ← condition.mapM fun e => (part e).as .bool
      let b ← inScope (checkStmt true body)
      let s ← steps.mapM checkAction
      return .block (first ++ [.forLoop c b s])
  | .ret value span => checkReturn value span
  | .throw e _ => checkThrow e
  | .leave span => checkExit inLoop .leave span
  | .next span => checkExit inLoop .next span

def checkBlock (inLoop : Bool) : List Tree.Stmt → Check (List Core.Stmt)
  | [] => return []
  | s :: rest => do
      let first ← checkStmt inLoop s
      return first :: (← checkBlock inLoop rest)

end

end Scriptlet.Typing
