import Scriptlet.Machine.Binding
import Scriptlet.Machine.Program
import Scriptlet.Template

namespace Scriptlet

/-!
# Toolchains

What turns a wrapped scriptlet into a method that can be called. A toolchain works in a monad, which
holds whatever its work does besides.
-/

/-- Why a call returns no value. -/
inductive CallFailure where
  | bind (e : Machine.BindError)
  | raised (c : ExceptionClass) (message : String)

/-- A method that can be called. -/
structure Entry (m : Type → Type) where
  name : String
  params : List DataType
  invoke : List Value → ExceptT CallFailure m Value

/-- A loaded module: the entry point of a class. -/
abbrev Loaded (m : Type → Type) :=
  String → ExceptT Machine.EntryError m (Entry m)

structure Toolchain (m : Type → Type) where
  /-- The image of a unit, or the diagnostics as they are shown. -/
  compile : WrappedUnit → ExceptT (List String) m (List UInt8)
  /-- The module of an image, or why there is none. -/
  load : List UInt8 → ExceptT String m (Loaded m)

end Scriptlet
