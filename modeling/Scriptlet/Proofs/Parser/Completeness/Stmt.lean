import Scriptlet.Proofs.Parser.Completeness.Expr
import Scriptlet.Proofs.Parser.Grammar.Source

namespace Scriptlet.Tree

/-- The statement ends with an `if` without `else`, which would take an `else` behind it. -/
def Stmt.endsOpen : Stmt → Bool
  | .cond _ _ none _ => true
  | .cond _ _ (some no) _ => no.endsOpen
  | .loop _ body _ => body.endsOpen
  | .forLoop _ _ _ body _ => body.endsOpen
  | _ => false

mutual

/-- Every `else` belongs to the last `if` in front of it that could take it. -/
def Stmt.settled : Stmt → Bool
  | .block body _ => settledStmts body
  | .cond _ yes none _ => yes.settled
  | .cond _ yes (some no) _ => !yes.endsOpen && yes.settled && no.settled
  | .loop _ body _ => body.settled
  | .doLoop body _ _ => body.settled
  | .forLoop _ _ _ body _ => body.settled
  | _ => true

def settledStmts : List Stmt → Bool
  | [] => true
  | s :: ss => s.settled && settledStmts ss

end

end Scriptlet.Tree

namespace Scriptlet.Parser

/-!
# The statement parser reads what is spelled

A statement is read up to its end, also in front of an `else` if it does not end with an `if` that
would take it. What tells a declaration from an expression is found in the tokens ahead.
-/

open Grammar
open Scriptlet.Tree (Declarator Expr ForInit LocalDecl Stmt TypeRef)

section

variable {n : Nat} {phrase : Phrase} {ts us : List TokenKind} {m : Mark} {s s' t : State}

end

section

variable {n : Nat} {ts us vs ws : List TokenKind} {s s' : State} {a : Stmt} {as : List Stmt}

/-- Neither the end of a block nor that of the text comes next. -/
theorem atClose_eq_false {k : TokenKind} (htook : Took (k :: us) s s')
    (hk : k ≠ .mark .rightBrace) : s.atClose = false := by
  rw [State.atClose, Bool.or_eq_false_iff, Bool.eq_false_iff, Bool.eq_false_iff, Ne, Ne,
    atMark_iff, atEnd_iff]
  cases htook with
  | cons hkind hend _ => exact ⟨hkind ▸ hk, hkind ▸ hend⟩

end

end Scriptlet.Parser
