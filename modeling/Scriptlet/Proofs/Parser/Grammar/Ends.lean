import Scriptlet.Proofs.Parser.Grammar.Source

namespace Scriptlet.Grammar

open Scriptlet.Tree (TypeRef)

end Scriptlet.Grammar
