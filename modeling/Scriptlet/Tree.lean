import Scriptlet.DataType
import Scriptlet.Operator
import Scriptlet.Text.Position

namespace Scriptlet.Tree

/-!
# Syntax trees

The tree of a source text. Every part carries the span of the text it was made from; parentheses
leave no trace.
-/

open Text (Span)

structure Ident where
  name : String
  span : Span
  deriving DecidableEq

inductive TypeShape where
  | void
  | basic (t : BasicType)
  | named (path : List Ident)
  deriving DecidableEq

/-- A dotted path. -/
def pathText (path : List Ident) : String :=
  ".".intercalate (path.map Ident.name)

structure TypeRef where
  shape : TypeShape
  span : Span
  deriving DecidableEq

def TypeRef.text (t : TypeRef) : String :=
  match t.shape with
  | .void => "void"
  | .basic b => b.toDataType.keyword
  | .named path => pathText path

inductive Literal where
  | int (value : Nat) (long : Bool)
  | real (value : Float) (single : Bool)
  | string (s : String)
  | char (c : Char)
  | bool (b : Bool)
  | null
  deriving DecidableEq

/-- The operators between two expressions. The first two evaluate their right operand only if the
left one does not decide. -/
inductive Operator where
  | andAlso
  | orElse
  | strict (op : BinaryOp)
  deriving DecidableEq

namespace Operator

def symbol : Operator → String
  | andAlso => "&&"
  | orElse => "||"
  | strict op => op.symbol

def isComparison : Operator → Bool
  | strict op => op.isComparison
  | _ => false

/-- How tightly an operator binds; zero is the loosest. -/
def level : Operator → Nat
  | orElse => 0
  | andAlso => 1
  | strict .bitOr => 2
  | strict .bitXor => 3
  | strict .bitAnd => 4
  | strict .eq | strict .ne => 5
  | strict .lt | strict .le | strict .gt | strict .ge => 6
  | strict .shl | strict .shr => 7
  | strict .add | strict .sub => 8
  | strict .mul | strict .div | strict .rem => 9

end Operator

inductive Sign where
  | plus
  | strict (op : UnaryOp)
  deriving DecidableEq

def Sign.symbol : Sign → String
  | plus => "+"
  | strict .neg => "-"
  | strict .not => "!"
  | strict .bitNot => "~"

inductive Expr where
  | literal (l : Literal) (span : Span)
  | name (name : String) (span : Span)
  /-- A type as the receiver of a member. -/
  | type (t : BasicType) (span : Span)
  | member (receiver : Expr) (name : Ident) (span : Span)
  | call (callee : Expr) (args : List Expr) (span : Span)
  | index (receiver index : Expr) (span : Span)
  | new (type : TypeRef) (args : List Expr) (span : Span)
  | unary (sign : Sign) (operand : Expr) (span : Span)
  | binary (op : Operator) (left right : Expr) (span : Span)
  /-- An assignment, or with an operator a compound one. -/
  | assign (op : Option BinaryOp) (target value : Expr) (span : Span)
  | step (increment isPrefix : Bool) (target : Expr) (span : Span)
  | conditional (condition yes no : Expr) (span : Span)
  | cast (type : TypeRef) (operand : Expr) (span : Span)

def Expr.span : Expr → Span
  | literal _ s | name _ s | type _ s | member _ _ s | call _ _ s | index _ _ s | new _ _ s => s
  | unary _ _ s | binary _ _ _ s | assign _ _ _ s | step _ _ _ s | conditional _ _ _ s
  | cast _ _ s => s

structure Declarator where
  name : Ident
  value : Option Expr

/-- The declaration of variables; without a type, the type of the value is taken. -/
structure LocalDecl where
  type : Option TypeRef
  declarators : List Declarator

inductive ForInit where
  | nothing
  | locals (d : LocalDecl)
  | exprs (es : List Expr)

inductive Stmt where
  | block (body : List Stmt) (span : Span)
  | empty (span : Span)
  | locals (d : LocalDecl) (span : Span)
  | expr (e : Expr) (span : Span)
  | cond (condition : Expr) (yes : Stmt) (no : Option Stmt) (span : Span)
  | loop (condition : Expr) (body : Stmt) (span : Span)
  | doLoop (body : Stmt) (condition : Expr) (span : Span)
  | forLoop (init : ForInit) (condition : Option Expr) (steps : List Expr) (body : Stmt)
      (span : Span)
  | ret (value : Option Expr) (span : Span)
  | throw (value : Expr) (span : Span)
  | leave (span : Span)
  | next (span : Span)

def Stmt.span : Stmt → Span
  | block _ s | empty s | locals _ s | expr _ s | cond _ _ _ s | loop _ _ s | doLoop _ _ s => s
  | forLoop _ _ _ _ s | ret _ s | throw _ s | leave s | next s => s

structure Block where
  body : List Stmt
  span : Span

structure Modifiers where
  isPublic : Bool
  isPrivate : Bool
  isInternal : Bool
  isProtected : Bool
  isStatic : Bool
  deriving DecidableEq

def Modifiers.none : Modifiers :=
  ⟨false, false, false, false, false⟩

structure Param where
  type : TypeRef
  name : Ident
  deriving DecidableEq

structure Method where
  modifiers : Modifiers
  result : TypeRef
  name : Ident
  params : List Param
  body : Block
  span : Span

structure Class where
  modifiers : Modifiers
  name : Ident
  methods : List Method
  span : Span

/-- The import of a namespace. -/
structure Import where
  path : List Ident
  span : Span
  deriving DecidableEq

structure Source where
  imports : List Import
  classes : List Class

def Source.importsPath (s : Source) (path : String) : Bool :=
  s.imports.any fun i => pathText i.path == path

end Scriptlet.Tree
