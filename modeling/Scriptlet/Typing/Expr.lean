import Scriptlet.Typing.Call
import Scriptlet.Typing.Operation

namespace Scriptlet.Typing

/-!
# Checking expressions
-/

mutual

/-- Checks an expression; each form has its rule. -/
def checkExpr : Tree.Expr → Check Typed
  | .literal l span => checkLiteral l span
  | .name name span => checkName name span
  | .type t span => wrong (.typeAsValue t.toDataType.keyword) span
  | .member receiver name _ => do
      match ← owner? receiver with
      | some owner => checkStaticMember owner name
      | none => checkValueMember (checkExpr receiver) name
  | .call (.name name span) args _ => checkSimpleCall name span (parts args)
  | .call (.member receiver name _) args _ => do
      match ← owner? receiver with
      | some owner => checkStaticCall owner name (parts args)
      | none => checkValueCall (checkExpr receiver) name (parts args)
  | .call callee _ _ => wrong .methodNameExpected callee.span
  | .index receiver index _ =>
      checkIndex ⟨receiver.span, checkExpr receiver⟩ ⟨index.span, checkExpr index⟩
  | .new type args span => checkNew type (parts args) span
  | .unary (.strict .neg) (.literal (.int value long) _) span => checkInteger (-value) long span
  | .unary .plus operand span => checkPlus (checkExpr operand) span
  | .unary (.strict op) operand span => checkUnary op (checkExpr operand) span
  | .binary .andAlso left right span =>
      checkLogical .andAlso .andAlso (checkExpr left) (checkExpr right) span
  | .binary .orElse left right span =>
      checkLogical .orElse .orElse (checkExpr left) (checkExpr right) span
  | .binary (.strict op) left right span => checkBinary op (checkExpr left) (checkExpr right) span
  | .assign op target value span => checkAssign op target ⟨value.span, checkExpr value⟩ span
  | .step increment isPrefix target _ => checkStep increment isPrefix target
  | .conditional condition yes no span =>
      checkConditional ⟨condition.span, checkExpr condition⟩ (checkExpr yes) (checkExpr no) span
  | .cast type operand _ => checkCast type ⟨operand.span, checkExpr operand⟩

/-- The expressions of a list, yet to be checked. -/
def parts : List Tree.Expr → List Part
  | [] => []
  | e :: es => ⟨e.span, checkExpr e⟩ :: parts es

end

/-- An expression as a part of another one. -/
def part (e : Tree.Expr) : Part :=
  ⟨e.span, checkExpr e⟩

end Scriptlet.Typing
