import Scriptlet.DataType

namespace Scriptlet

/-!
# Scopes

The variables that are visible at a place of a method body. Blocks nest, so the scopes form a stack
with the innermost one in front. A name is declared at most once among the open scopes.
-/

/-- A variable: the slot that holds it and its type. -/
structure Local where
  slot : UInt16
  type : DataType
  deriving DecidableEq

/-- Why a name cannot be declared. -/
inductive Redeclaration where
  | sameScope
  | enclosingScope
  deriving DecidableEq

structure Scopes where
  frames : List (List (String × Local))

namespace Scopes

def empty : Scopes :=
  ⟨[]⟩

/-- Opens a scope. -/
def push (s : Scopes) : Scopes :=
  ⟨[] :: s.frames⟩

/-- Closes the innermost scope. -/
def pop (s : Scopes) : Scopes :=
  ⟨s.frames.tail⟩

/-- The innermost variable of a name. -/
def lookup? (s : Scopes) (name : String) : Option Local :=
  s.frames.findSome? (·.lookup name)

def binds (frame : List (String × Local)) (name : String) : Bool :=
  (frame.lookup name).isSome

/-- Declares a name in the innermost scope. -/
def declare (s : Scopes) (name : String) (l : Local) : Except Redeclaration Scopes :=
  match s.frames with
  | [] => .ok s
  | inner :: outer =>
      if binds inner name then .error .sameScope
      else if outer.any (binds · name) then .error .enclosingScope
      else .ok ⟨((name, l) :: inner) :: outer⟩

end Scopes

end Scriptlet
