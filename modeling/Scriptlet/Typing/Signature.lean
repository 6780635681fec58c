import Scriptlet.Code.Module
import Scriptlet.Tree
import Scriptlet.Typing.Catalogue
import Scriptlet.Typing.SemanticError

namespace Scriptlet

/-!
# Signatures

What the classes and methods of a program look like from outside. All of them are known before any
body is checked, so methods can call each other in any order. A program with two classes or two
methods of one name is wrong; names then mean the first of them.
-/

structure MethodSignature where
  name : String
  isPublic : Bool
  isStatic : Bool
  params : List DataType
  paramNames : List String
  result : DataType

structure ClassSignature where
  name : String
  methods : List MethodSignature

/-- A method with its class, as in `Class.Method(int, string)`. -/
def ClassSignature.describe (c : ClassSignature) (m : MethodSignature) : String :=
  c.name ++ "." ++ Code.signatureText m.name m.params

/-- The first method of a name, with its place. -/
def ClassSignature.method? (c : ClassSignature) (name : String) : Option (Nat × MethodSignature) :=
  match c.methods.findIdx? (·.name == name) with
  | some i => c.methods[i]?.map (i, ·)
  | none => none

/-- The names that types and owners can have. -/
structure TypeNames where
  classes : List String
  /-- Whether names of the namespace `System` need not be qualified. -/
  importsSystem : Bool

namespace TypeNames

def ofSource (s : Tree.Source) : TypeNames :=
  ⟨s.classes.map (·.name.name), s.importsPath "System"⟩

/-- The place of the first class of a name. -/
def class? (names : TypeNames) (name : String) : Option Nat :=
  names.classes.findIdx? (· == name)

/-- What a name stands for; classes of the program come before the catalogue. -/
def owner? (names : TypeNames) (name : String) : Option Owner :=
  match names.class? name with
  | some i => some (.cls i)
  | none => if names.importsSystem then Catalogue.owner? name else none

/-- What a path stands for. -/
def ownerOfPath? (names : TypeNames) : List String → Option Owner
  | [name] => names.owner? name
  | ["System", name] => Catalogue.owner? name
  | _ => none

/-- The type that a reference means. Classes have no values, so they are no types of variables. -/
def resolve (names : TypeNames) (t : Tree.TypeRef) : Except SemanticError DataType :=
  match t.shape with
  | .void => .ok .void
  | .basic b => .ok b.toDataType
  | .named path =>
      match names.ownerOfPath? (path.map (·.name)) with
      | some (.type t) => .ok t
      | some (.cls i) => .error (.staticAsType (names.classes.getD i ""))
      | some _ => .error (.staticAsType (Tree.pathText path))
      | none => .error (.unknownType t.text)

/-- The meaning of a reference, if it has one; otherwise the error is reported. -/
def resolved? (names : TypeNames) (t : Tree.TypeRef) : Reporting (Option DataType) :=
  match names.resolve t with
  | .ok t => return some t
  | .error e => do
      report e t.span
      return none

end TypeNames

structure Signatures where
  names : TypeNames
  classes : List ClassSignature

namespace Signatures

/-- The type of a parameter; a type that is wrong counts as `object`. -/
def paramType (names : TypeNames) (t : Tree.TypeRef) : Reporting DataType := do
  match ← names.resolved? t with
  | some .void =>
      report .voidParameter t.span
      return .object
  | some t => return t
  | none => return .object

/-- The types of parameters behind those with the names in `before`. -/
def paramTypes (names : TypeNames) (before : List String) :
    List Tree.Param → Reporting (List DataType)
  | [] => return []
  | p :: params => do
      let t ← paramType names p.type
      if before.contains p.name.name then
        report (.duplicateParameter p.name.name) p.name.span
      return t :: (← paramTypes names (p.name.name :: before) params)

/-- The signature of a method of a class behind the methods with the names in `before`. -/
def ofMethod (names : TypeNames) (cls : String) (before : List String) (m : Tree.Method) :
    Reporting MethodSignature := do
  let result := (← names.resolved? m.result).getD .object
  let params ← paramTypes names [] m.params
  let name := m.name.name
  if name = cls then report (.memberNamedAsType name) m.name.span
  if before.contains name then report (.duplicateMember cls name) m.name.span
  return ⟨name, m.modifiers.isPublic, m.modifiers.isStatic, params, m.params.map (·.name.name),
    result⟩

def ofMethods (names : TypeNames) (cls : String) (before : List String) :
    List Tree.Method → Reporting (List MethodSignature)
  | [] => return []
  | m :: ms => do
      let first ← ofMethod names cls before m
      return first :: (← ofMethods names cls (m.name.name :: before) ms)

def reportDuplicates (before : List String) : List Tree.Class → Reporting Unit
  | [] => return ()
  | c :: cs => do
      if before.contains c.name.name then report (.duplicateClass c.name.name) c.name.span
      reportDuplicates (c.name.name :: before) cs

/-- The signatures of a program. -/
def ofSource (s : Tree.Source) : Reporting Signatures := do
  let names := TypeNames.ofSource s
  reportDuplicates [] s.classes
  let classes ← s.classes.mapM fun c => do
    return ⟨c.name.name, ← ofMethods names c.name.name [] c.methods⟩
  return ⟨names, classes⟩

/-- How an owner is named in messages. -/
def ownerText (s : Signatures) : Owner → String
  | .cls i => s.names.classes.getD i ""
  | .type t => t.keyword
  | .math => "Math"
  | .convert => "Convert"
  | .console => "Console"

end Signatures

end Scriptlet
