import Scriptlet.Diagnostic
import Scriptlet.Typing.StaticType

namespace Scriptlet

/-!
# Semantic errors

What can be wrong with a program that parses.
-/

inductive SemanticError where
  | unknownName (name : String)
  | typeAsValue (name : String)
  /-- A method without a call; `name` may carry its owner or its parameters. -/
  | methodAsValue (name : String)
  | namespaceAsValue (name : String)
  | methodNameExpected
  | notInvocable (owner : DataType) (member : String)
  | unknownType (name : String)
  | staticAsType (name : String)
  | noConversion (source : StaticType) (target : DataType) (cast : Bool)
  | nullAsValue (target : DataType)
  | noCommonType (yes no : StaticType)
  | constantTooLarge (n : Int)
  | noCast (source : StaticType) (target : DataType)
  | constantOutOfRange (n : Int) (target : DataType)
  | unaryOperand (symbol : String) (t : StaticType)
  | binaryOperands (symbol : String) (left right : StaticType)
  | noIndexing (t : StaticType)
  | duplicateParameter (name : String)
  | declaredTwice (name : String)
  | hidesEnclosing (name : String)
  | noMember (owner member : String)
  | argumentCount (method : String) (count : Nat)
  | noConstructor (t : DataType) (count : Nat)
  /-- An argument that does not convert; places count from zero. -/
  | argument (place : Nat) (source : StaticType) (target : DataType)
  | missingReturn (method : String)
  | noLoop
  | noObject (method : String)
  | duplicateClass (name : String)
  | memberNamedAsType (name : String)
  | duplicateMember (cls name : String)
  | notAssignable
  | notSteppable
  | valueFromVoid (method : String)
  | valueRequired (t : DataType)
  | voidParameter
  | voidVariable
  | severalInferred
  | inferredFromVoid
  | inferredFromNull
  | inferredFromNothing
  | notThrowable
  | notStatement
  deriving DecidableEq

namespace SemanticError

def code : SemanticError → ErrorCode
  | unknownName _ | typeAsValue _ | methodAsValue _ | namespaceAsValue _ | methodNameExpected
  | notInvocable _ _ => ⟨2001⟩
  | unknownType _ | staticAsType _ => ⟨2002⟩
  | noConversion _ _ _ | nullAsValue _ | noCommonType _ _ | constantTooLarge _ => ⟨2003⟩
  | noCast _ _ | constantOutOfRange _ _ => ⟨2004⟩
  | unaryOperand _ _ | binaryOperands _ _ _ | noIndexing _ => ⟨2005⟩
  | duplicateParameter _ | declaredTwice _ | hidesEnclosing _ => ⟨2006⟩
  | noMember _ _ => ⟨2007⟩
  | argumentCount _ _ | noConstructor _ _ => ⟨2008⟩
  | argument _ _ _ => ⟨2009⟩
  | missingReturn _ => ⟨2010⟩
  | noLoop => ⟨2011⟩
  | noObject _ => ⟨2012⟩
  | duplicateClass _ | memberNamedAsType _ | duplicateMember _ _ => ⟨2013⟩
  | notAssignable | notSteppable => ⟨2014⟩
  | valueFromVoid _ | valueRequired _ => ⟨2015⟩
  | voidParameter | voidVariable | severalInferred | inferredFromVoid | inferredFromNull
  | inferredFromNothing => ⟨2016⟩
  | notThrowable => ⟨2017⟩
  | notStatement => ⟨2018⟩

def message : SemanticError → String
  | unknownName name => "The name '" ++ name ++ "' does not exist in the current context"
  | typeAsValue name => "'" ++ name ++ "' is a type, which is not valid in the given context"
  | methodAsValue name => "'" ++ name ++ "' is a method, which is not valid in the given context"
  | namespaceAsValue name => "'" ++ name ++ "' is a namespace but is used like a variable"
  | methodNameExpected => "Method name expected"
  | notInvocable owner member =>
      "Non-invocable member '" ++ owner.keyword ++ "." ++ member ++
        "' cannot be used like a method."
  | unknownType name =>
      "The type or namespace name '" ++ name ++ "' could not be found " ++
        "(are you missing a using directive or an assembly reference?)"
  | staticAsType name =>
      "'" ++ name ++ "' is a static type and cannot be used as a variable type"
  | noConversion source target cast =>
      "Cannot implicitly convert type '" ++ source.text ++ "' to '" ++ target.keyword ++ "'" ++
        if cast then ". An explicit conversion exists (are you missing a cast?)" else ""
  | nullAsValue target =>
      "Cannot convert null to '" ++ target.keyword ++
        "' because it is a non-nullable value type"
  | noCommonType yes no =>
      "Type of conditional expression cannot be determined because there is no implicit " ++
        "conversion between '" ++ yes.text ++ "' and '" ++ no.text ++ "'"
  | constantTooLarge n => "Constant value '" ++ n.repr ++ "' cannot be converted to a 'long'"
  | noCast source target =>
      "Cannot convert type '" ++ source.text ++ "' to '" ++ target.keyword ++ "'"
  | constantOutOfRange n target =>
      "Constant value '" ++ n.repr ++ "' cannot be converted to a '" ++ target.keyword ++
        "' (use 'unchecked' syntax to override)"
  | unaryOperand symbol t =>
      "Operator '" ++ symbol ++ "' cannot be applied to operand of type '" ++ t.text ++ "'"
  | binaryOperands symbol left right =>
      "Operator '" ++ symbol ++ "' cannot be applied to operands of type '" ++ left.text ++
        "' and '" ++ right.text ++ "'"
  | noIndexing t =>
      "Cannot apply indexing with [] to an expression of type '" ++ t.text ++ "'"
  | duplicateParameter name => "The parameter name '" ++ name ++ "' is a duplicate"
  | declaredTwice name =>
      "A local variable named '" ++ name ++ "' is already defined in this scope"
  | hidesEnclosing name =>
      "A local or parameter named '" ++ name ++ "' cannot be declared in this scope because " ++
        "that name is used in an enclosing local scope to define a local or parameter"
  | noMember owner member =>
      "'" ++ owner ++ "' does not contain a definition for '" ++ member ++ "'"
  | argumentCount method count =>
      "No overload for method '" ++ method ++ "' takes " ++ count.repr ++ " arguments"
  | noConstructor t count =>
      "'" ++ t.keyword ++ "' does not contain a constructor that takes " ++ count.repr ++
        " arguments"
  | argument place source target =>
      "Argument " ++ (place + 1).repr ++ ": cannot convert from '" ++ source.text ++ "' to '" ++
        target.keyword ++ "'"
  | missingReturn method => "'" ++ method ++ "': not all code paths return a value"
  | noLoop => "No enclosing loop out of which to break or continue"
  | noObject method =>
      "An object reference is required for the non-static field, method, or property '" ++
        method ++ "'"
  | duplicateClass name =>
      "The namespace '<global namespace>' already contains a definition for '" ++ name ++ "'"
  | memberNamedAsType name =>
      "'" ++ name ++ "': member names cannot be the same as their enclosing type"
  | duplicateMember cls name =>
      "Type '" ++ cls ++ "' already defines a member called '" ++ name ++ "'"
  | notAssignable => "The left-hand side of an assignment must be a variable, property or indexer"
  | notSteppable =>
      "The operand of an increment or decrement operator must be a variable, property or indexer"
  | valueFromVoid method =>
      "Since '" ++ method ++ "' returns void, a return keyword must not be followed by an " ++
        "object expression"
  | valueRequired t => "An object of a type convertible to '" ++ t.keyword ++ "' is required"
  | voidParameter => "Parameters cannot have type 'void'"
  | voidVariable => "Keyword 'void' cannot be used in this context"
  | severalInferred => "Implicitly-typed variables cannot have multiple declarators"
  | inferredFromVoid => "Cannot assign void to an implicitly-typed variable"
  | inferredFromNull => "Cannot assign <null> to an implicitly-typed variable"
  | inferredFromNothing => "Implicitly-typed variables must be initialized"
  | notThrowable => "The type caught or thrown must be derived from System.Exception"
  | notStatement =>
      "Only assignment, call, increment, decrement, and new object expressions can be used as " ++
        "a statement"

def diagnostic (e : SemanticError) (span : Text.Span) : Diagnostic :=
  ⟨e.code, .error, e.message, span⟩

end SemanticError

/-- A semantic error and the place it is about. -/
structure Report where
  error : SemanticError
  span : Text.Span

def Report.diagnostic (r : Report) : Diagnostic :=
  r.error.diagnostic r.span

/-- Every report is an error, so a program is wrong as soon as anything is reported. -/
theorem Report.hasErrors_map (rs : List Report) :
    Diagnostic.hasErrors (rs.map Report.diagnostic) = !rs.isEmpty := by
  cases rs <;> rfl

/-- A result with what was reported on the way to it, in order. -/
structure Reporting (α : Type) where
  value : α
  reports : List Report

namespace Reporting

instance : Monad Reporting where
  pure a := ⟨a, []⟩
  bind x f :=
    let y := f x.value
    ⟨y.value, x.reports ++ y.reports⟩

instance : LawfulMonad Reporting :=
  LawfulMonad.mk' Reporting
    (fun _ => by simp [Functor.map])
    (fun _ _ => by simp [bind, pure])
    (fun _ _ _ => by simp [bind])

@[simp] theorem value_pure {α : Type} (a : α) : (pure a : Reporting α).value = a := rfl

@[simp] theorem value_bind {α β : Type} (x : Reporting α) (f : α → Reporting β) :
    (x >>= f).value = (f x.value).value := rfl

@[simp] theorem reports_bind {α β : Type} (x : Reporting α) (f : α → Reporting β) :
    (x >>= f).reports = x.reports ++ (f x.value).reports := rfl

end Reporting

def report (e : SemanticError) (span : Text.Span) : Reporting Unit :=
  ⟨(), [⟨e, span⟩]⟩

end Scriptlet
