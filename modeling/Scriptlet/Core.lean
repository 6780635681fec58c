import Scriptlet.Code.Draft
import Scriptlet.Typing.Combiner
import Scriptlet.Typing.Conversion
import Scriptlet.Typing.Signature

namespace Scriptlet.Core

/-!
# Core programs

Programs after checking: names are slots and methods, overloads are chosen, and every conversion is
written out.
-/

open Code (Handle Literal Routine)

inductive Expr where
  | literal (l : Literal)
  | load (slot : UInt16)
  | convert (c : Conversion) (target : DataType) (e : Expr)
  /-- A conversion with a place in the code even if nothing is to be done: one that is chosen only
  after its operand and others have been checked. -/
  | settle (c : Conversion) (target : DataType) (e : Expr)
  | unary (op : UnaryOp) (e : Expr)
  | combine (c : Combiner) (left right : Expr)
  | andAlso (left right : Expr)
  | orElse (left right : Expr)
  /-- Stores a value, which is the value of the expression too. -/
  | assign (slot : UInt16) (e : Expr)
  /-- Adds one to a variable or subtracts it; the value is that from before. -/
  | advance (slot : UInt16) (op : BinaryOp) (c : Conversion) (target : DataType)
  | choose (condition yes no : Expr)
  | call (method : Handle) (args : List Expr)
  | routine (r : Routine) (args : List Expr)

inductive Stmt where
  | block (body : List Stmt)
  | store (slot : UInt16) (e : Expr)
  /-- Runs an expression, whose value is dropped if it has one. -/
  | eval (e : Expr) (hasValue : Bool)
  | cond (condition : Expr) (yes : Stmt) (no : Option Stmt)
  | loop (condition : Expr) (body : Stmt)
  | doLoop (body : Stmt) (condition : Expr)
  | forLoop (condition : Option Expr) (body : Stmt) (steps : List Stmt)
  | ret (value : Option Expr)
  | throw (e : Expr)
  | leave
  | next

/-- A checked method: its slots are reserved in the draft. -/
structure Method where
  signature : MethodSignature
  draft : Code.Draft
  body : Stmt
  /-- Whether the end of the body can be reached. -/
  endsOpen : Bool

structure Class where
  name : String
  methods : List Method

end Scriptlet.Core
