import Scriptlet.Core.Assembly
import Scriptlet.Parser.Source
import Scriptlet.Typing.Source

namespace Scriptlet

/-!
# Compiling

A source text is parsed, checked and assembled. Checking waits for a text without syntax errors, and
assembling for a program about which nothing is reported.
-/

/-- The module that a tree compiles to, or what is wrong with the program. -/
def compileSource (s : Tree.Source) (name : String) : Except (List Diagnostic) Code.Module :=
  let checked := Typing.checkSource s
  let diagnostics := checked.reports.map Report.diagnostic
  if Diagnostic.hasErrors diagnostics then .error diagnostics
  else .ok (Core.assemble name checked.value)

/-- The module of a name that a text compiles to, or what is wrong with the text. -/
def compile (text : List Char) (name : String) : Except (List Diagnostic) Code.Module :=
  let parsed := parseText text
  if Diagnostic.hasErrors parsed.diagnostics then .error parsed.diagnostics
  else compileSource parsed.source name

end Scriptlet
