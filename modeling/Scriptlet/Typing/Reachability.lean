import Scriptlet.Tree

namespace Scriptlet.Tree

/-!
# Reachability

Whether the end of a statement can be reached, as far as its form tells: a loop without a condition
or with the literal `true` ends only through `break`, and any other condition can come out either
way.
-/

/-- What can be reached from the start of a statement. -/
structure Reach where
  /-- The end of the statement. -/
  ends : Bool
  /-- A `break` that belongs to a loop around the statement. -/
  leaves : Bool
  deriving DecidableEq

/-- The literal `true`. -/
def Expr.isTrue : Expr → Bool
  | .literal (.bool b) _ => b
  | _ => false

/-- What can be reached behind a loop that begins with `start`. -/
def Reach.ofLoop (start endless : Bool) (body : Reach) : Reach :=
  ⟨(start && !endless) || body.leaves, false⟩

mutual

/-- What can be reached in a statement whose start can be reached if `start` holds. -/
def Stmt.reach (start : Bool) : Stmt → Reach
  | .block body _ => reachBlock start body
  | .empty _ | .locals _ _ | .expr _ _ => ⟨start, false⟩
  | .cond _ yes none _ =>
      let y := yes.reach start
      ⟨y.ends || start, y.leaves⟩
  | .cond _ yes (some no) _ =>
      let y := yes.reach start
      let n := no.reach start
      ⟨y.ends || n.ends, y.leaves || n.leaves⟩
  | .loop condition body _ => .ofLoop start condition.isTrue (body.reach start)
  | .doLoop body condition _ => .ofLoop start condition.isTrue (body.reach start)
  | .forLoop _ condition _ body _ => .ofLoop start (condition.all Expr.isTrue) (body.reach start)
  | .ret _ _ | .throw _ _ | .next _ => ⟨false, false⟩
  | .leave _ => ⟨false, start⟩

def reachBlock (start : Bool) : List Stmt → Reach
  | [] => ⟨start, false⟩
  | s :: rest =>
      let first := s.reach start
      let others := reachBlock first.ends rest
      ⟨others.ends, first.leaves || others.leaves⟩

end

end Scriptlet.Tree
