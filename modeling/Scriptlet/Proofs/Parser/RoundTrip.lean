import Scriptlet.Proofs.Parser.Completeness.Source
import Scriptlet.Proofs.Parser.Grammar.Ends
import Scriptlet.Proofs.Parser.Printing

namespace Scriptlet

/-!
# Printing and parsing

What is printed is parsed without a report, and gives the tree back up to its spans. So does every
other spelling of a tree whose `else` words belong where the parser takes them to belong.
-/

open Scriptlet.Parser (Took)
open Scriptlet.Tree (Expr Source)

end Scriptlet
