import Scriptlet.Compiler
import Scriptlet.Console
import Scriptlet.Engine
import Scriptlet.Image
import Scriptlet.Machine.Run

namespace Scriptlet

/-!
# The built-in toolchain

Compiles to an image and runs it on the stack machine. Diagnostics are shown with their positions in
the scriptlet, not in its template.
-/

/-- Work that prints to a console, and that has no result if it takes too many steps. -/
abbrev Work :=
  StateT Console Option

namespace Builtin

/-- A diagnostic about a text as the author of the part from `origin` on sees it. -/
def shown (text : List Char) (origin : Nat) (d : Diagnostic) : String :=
  d.renderAt (Text.positionBeyond text origin d.span.start)

def compileUnit (u : WrappedUnit) : Except (List String) (List UInt8) :=
  let text := u.text.toList
  ((compile text u.moduleName).map Image.encode).mapError fun ds => ds.map (shown text u.bodyOffset)

def loadImage (bytes : List UInt8) : Except String Machine.Program := do
  let m ← (Image.decode bytes).mapError ImageError.message
  (Machine.Program.ofModule m).mapError Machine.ModuleError.message

/-- Calls a method with at most `limit` calls at a time and `steps` steps. -/
def invokeMethod (limit steps : Nat) (p : Machine.Program) (h : Code.Handle) (method : Code.Method)
    (args : List Value) : ExceptT CallFailure Work Value := do
  let bound ← ExceptT.mk (pure ((Machine.bindArguments method args).mapError .bind))
  let outcome ← (Machine.invoke p limit steps h bound : Work Machine.Outcome)
  modifyThe Console (·.print outcome.output)
  match outcome.result with
  | .ok v => return v
  | .error f => throw (.raised f.exceptionClass f.message)

def entry (limit steps : Nat) (p : Machine.Program) (container : String) :
    Except Machine.EntryError (Entry Work) := do
  let h ← p.entry container
  match p.method? h with
  | some method => return ⟨method.name, method.params, invokeMethod limit steps p h method⟩
  | none => throw (.noPublicMethod container)

def toolchain (limit steps : Nat) : Toolchain Work where
  compile u := ExceptT.mk (pure (compileUnit u))
  load bytes := ExceptT.mk <| pure <| (loadImage bytes).map fun p container =>
    ExceptT.mk (pure (entry limit steps p container))

end Builtin

/-- The engine with the built-in toolchain. -/
def Engine.builtin (t : Template) (limit steps : Nat) : Engine Work :=
  ⟨t, Builtin.toolchain limit steps⟩

end Scriptlet
