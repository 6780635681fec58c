import Scriptlet.Text.Position

namespace Scriptlet

/-!
# Templates

A scriptlet becomes a complete program inside a template, which imports namespaces and declares the
class that holds it.
-/

structure Template where
  /-- The class that holds the scriptlet. -/
  container : String
  /-- The name of the compiled module. -/
  moduleName : String
  imports : List String

/-- A scriptlet in its template. -/
structure WrappedUnit where
  text : String
  moduleName : String
  /-- Where the scriptlet begins, in bytes. -/
  bodyOffset : Nat

namespace Template

def standard : Template :=
  ⟨"DynamicMethodClass", "DynamicMethodAssembly", ["System", "System.Text"]⟩

def importLine (name : String) : String :=
  "using " ++ name ++ ";\n"

/-- What stands before the scriptlet. -/
def opening (t : Template) : String :=
  String.join (t.imports.map importLine) ++ "public class " ++ t.container ++ " \x7b\n\t"

/-- What stands behind the scriptlet. -/
def closing : String := "\n\x7d"

def wrap (t : Template) (body : String) : WrappedUnit :=
  ⟨t.opening ++ body ++ closing, t.moduleName, Text.byteLength t.opening.toList⟩

end Template

end Scriptlet
