import Scriptlet.Diagnostic
import Scriptlet.Token
import Scriptlet.Tree

namespace Scriptlet

/-!
# Parsers

A parser reads tokens from the front of a list and either makes a part of the tree or fails with an
error where it stands. Errors are reported by those who can go on: they add the error to the
diagnostics and skip tokens up to a place where parsing makes sense again.
-/

open Text (Span)

inductive SyntaxError where
  /-- A token is missing; `unclosed` if it closes something and the text has ended. -/
  | expected (spelling : String) (unclosed : Bool)
  | definitionExpected
  | invalidTerm (spelling : String)
  | identifierExpected
  | typeExpected
  | nestedType
  | constructor
  | property
  | field
  /-- The bound on nesting is used up, which no token list brings about. -/
  | exhausted
  deriving DecidableEq

namespace SyntaxError

def code : SyntaxError → ErrorCode
  | expected _ unclosed => ⟨if unclosed then 1003 else 1001⟩
  | definitionExpected => ⟨1001⟩
  | invalidTerm _ => ⟨1002⟩
  | identifierExpected => ⟨1004⟩
  | typeExpected => ⟨1005⟩
  | nestedType | constructor | property => ⟨1006⟩
  | field => ⟨1007⟩
  | exhausted => ⟨1999⟩

def message : SyntaxError → String
  | expected spelling _ => spelling ++ " expected"
  | definitionExpected => "Type or namespace definition, or end-of-file expected"
  | invalidTerm spelling => "Invalid expression term '" ++ spelling ++ "'"
  | identifierExpected => "Identifier expected"
  | typeExpected => "Type expected"
  | nestedType => "Nested types are not supported"
  | constructor => "Constructors are not supported"
  | property => "Properties are not supported"
  | field => "Field declarations are not supported"
  | exhausted => "Nesting is too deep"

end SyntaxError

/-- An error and the place it is about. -/
structure SyntaxFailure where
  error : SyntaxError
  span : Span
  deriving DecidableEq

def SyntaxFailure.diagnostic (f : SyntaxFailure) : Diagnostic :=
  ⟨f.error.code, .error, f.error.message, f.span⟩

namespace Parser

structure State where
  /-- The tokens that have not been read. -/
  rest : List Token
  /-- The span of the token that was read last. -/
  previous : Option Span
  diagnostics : List Diagnostic

namespace State

/-- The kind of the token `n` places ahead; behind the last token there are only ends. -/
def ahead (s : State) (n : Nat) : TokenKind :=
  match s.rest[n]? with
  | some t => t.kind
  | none => .eof

def kind (s : State) : TokenKind :=
  s.ahead 0

/-- The span of the current token. -/
def span (s : State) : Span :=
  match s.rest with
  | t :: _ => t.span
  | [] => .point 0

/-- The span of the last token read, or the start of the text. -/
def lastSpan (s : State) : Span :=
  s.previous.getD (.point 0)

/-- Where a missing token is reported: behind the last token. -/
def gap (s : State) : Span :=
  match s.previous with
  | some p => .point p.stop
  | none => s.span

def atMark (s : State) (m : Mark) : Bool :=
  match s.kind with
  | .mark n => n == m
  | _ => false

def atKeyword (s : State) (k : Keyword) : Bool :=
  match s.kind with
  | .keyword l => l == k
  | _ => false

def atEnd (s : State) : Bool :=
  match s.kind with
  | .eof => true
  | _ => false

/-- The state behind the current token. The end is never passed. -/
def advance (s : State) : State :=
  match s.rest with
  | t :: rest => if t.kind = .eof then s else ⟨rest, some t.span, s.diagnostics⟩
  | [] => s

/-- Adds an error to the diagnostics. -/
def report (s : State) (f : SyntaxFailure) : State :=
  { s with diagnostics := s.diagnostics ++ [f.diagnostic] }

end State

end Parser

/-- A parser of parts of a tree. A failed parser leaves the state in which it failed. -/
abbrev Parser (α : Type) := ExceptT SyntaxFailure (StateM Parser.State) α

namespace Parser

def fail {α : Type} (e : SyntaxError) (span : Span) : Parser α :=
  throw ⟨e, span⟩

/-- Fails with an error about the current token. -/
def failHere {α : Type} (e : SyntaxError) : Parser α := do
  fail e (← get).span

def advance : Parser Unit :=
  modify State.advance

def atMark (m : Mark) : Parser Bool := do
  return (← get).atMark m

/-- Reads a mark if it comes next. -/
def accept (m : Mark) : Parser Bool := do
  if (← get).atMark m then
    advance
    return true
  else return false

def acceptKeyword (k : Keyword) : Parser Bool := do
  if (← get).atKeyword k then
    advance
    return true
  else return false

def isClosing : Mark → Bool
  | .rightBrace | .rightParen | .rightBracket => true
  | _ => false

/-- Reads a mark that must come next. -/
def expect (m : Mark) : Parser Unit := do
  let s ← get
  if s.atMark m then advance
  else fail (.expected m.spelling (isClosing m && s.atEnd)) s.gap

def expectKeyword (k : Keyword) : Parser Unit := do
  let s ← get
  if s.atKeyword k then advance
  else fail (.expected k.spelling false) s.gap

/-- The span from `start` to the last token read. -/
def spanFrom (start : Span) : Parser Span := do
  return start.merge (← get).lastSpan

def ident : Parser Tree.Ident := do
  let s ← get
  match s.kind with
  | .ident name =>
      advance
      return ⟨name, s.span⟩
  | _ => fail .identifierExpected s.span

/-- The basic type that a token names. -/
def basicType? : TokenKind → Option BasicType
  | .keyword .kwBool => some .bool
  | .keyword .kwByte => some .byte
  | .keyword .kwShort => some .short
  | .keyword .kwInt => some .int
  | .keyword .kwLong => some .long
  | .keyword .kwFloat => some .float
  | .keyword .kwDouble => some .double
  | .keyword .kwChar => some .char
  | .keyword .kwString => some .string
  | .keyword .kwObject => some .object
  | _ => none

/-- The identifiers, each behind a point, at the front of a token list. -/
def pathTail : List Token → List Tree.Ident
  | ⟨.mark .dot, _⟩ :: ⟨.ident name, span⟩ :: rest => ⟨name, span⟩ :: pathTail rest
  | _ => []

/-- Reads `n` tokens. -/
def advanceBy : Nat → Parser Unit
  | 0 => return ()
  | n + 1 => do
      advance
      advanceBy n

/-- A type: `void`, the keyword of a basic type, or a path. -/
def typeRef : Parser Tree.TypeRef := do
  let s ← get
  match s.kind with
  | .keyword .kwVoid =>
      advance
      return ⟨.void, s.span⟩
  | .ident name =>
      advance
      let tail := pathTail (← get).rest
      advanceBy (2 * tail.length)
      return ⟨.named (⟨name, s.span⟩ :: tail), ← spanFrom s.span⟩
  | kind =>
      match basicType? kind with
      | some t =>
          advance
          return ⟨.basic t, s.span⟩
      | none => fail .typeExpected s.span

/-- Whether tokens begin with a path and another identifier, as the declaration of a variable
does. -/
def startsWithPathAndName : List Token → Bool
  | ⟨.ident _, _⟩ :: rest => nameBehindPath rest
  | _ => false
where
  nameBehindPath : List Token → Bool
    | ⟨.mark .dot, _⟩ :: ⟨.ident _, _⟩ :: rest => nameBehindPath rest
    | ⟨.ident _, _⟩ :: _ => true
    | _ => false

/-- Runs a parser; if it fails, reports the error, skips tokens and gives nothing. -/
def recovering {α : Type} (p : Parser α) (skip : State → State) : Parser (Option α) := do
  try return some (← p)
  catch f =>
    modify fun s => skip (s.report f)
    return none

end Parser

end Scriptlet
