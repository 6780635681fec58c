import Scriptlet.Parser.Stmt
import Scriptlet.Token.Lexer

namespace Scriptlet.Parser

/-!
# Parsing sources

Imports come first and then classes, whose members are methods. Behind an error a class skips to the
end of the member, and the source to the next word that can begin a class.
-/

/-- Skips past a semicolon or a pair of braces, or up to a brace that closes none of the skipped
ones. -/
def skipMember (depth : Nat) (previous : Option Text.Span) :
    List Token → List Token × Option Text.Span
  | [] => ([], previous)
  | t :: rest =>
      match t.kind with
      | .eof => (t :: rest, previous)
      | .mark .leftBrace => skipMember (depth + 1) (some t.span) rest
      | .mark .rightBrace =>
          if depth = 0 then (t :: rest, previous)
          else if depth = 1 then (rest, some t.span)
          else skipMember (depth - 1) (some t.span) rest
      | .mark .semicolon =>
          if depth = 0 then (rest, some t.span) else skipMember depth (some t.span) rest
      | _ => skipMember depth (some t.span) rest

def State.skipMember (s : State) : State :=
  let (rest, previous) := Parser.skipMember 0 s.previous s.rest
  { s with rest, previous }

/-- Skips to the next word that can begin a class. -/
def skipToClass (previous : Option Text.Span) : List Token → List Token × Option Text.Span
  | [] => ([], previous)
  | t :: rest =>
      match t.kind with
      | .eof | .keyword .kwClass => (t :: rest, previous)
      | kind => if kind.isModifier then (t :: rest, previous) else skipToClass (some t.span) rest

/-- Skips at least one token, unless at the end. -/
def State.skipToClass (s : State) : State :=
  let t := s.advance
  let (rest, previous) := Parser.skipToClass t.previous t.rest
  { t with rest, previous }

/-- The modifiers with one more. -/
def addModifier (m : Tree.Modifiers) : Keyword → Tree.Modifiers
  | .kwPublic => { m with isPublic := true }
  | .kwPrivate => { m with isPrivate := true }
  | .kwInternal => { m with isInternal := true }
  | .kwProtected => { m with isProtected := true }
  | .kwStatic => { m with isStatic := true }
  | _ => m

/-- The modifiers at the front of a token list, and their number. -/
def modifiersOf (m : Tree.Modifiers) (count : Nat) : List Token → Tree.Modifiers × Nat
  | ⟨.keyword k, _⟩ :: rest =>
      if k.isModifier then modifiersOf (addModifier m k) (count + 1) rest else (m, count)
  | _ => (m, count)

def modifiers : Parser Tree.Modifiers := do
  let (m, count) := modifiersOf .none 0 (← get).rest
  advanceBy count
  return m

/-- One or more parameters with commas between them. -/
def paramList : Nat → Parser (List Tree.Param)
  | 0 => failHere .exhausted
  | n + 1 => do
      let type ← typeRef
      let name ← ident
      if ← accept .comma then return ⟨type, name⟩ :: (← paramList n) else return [⟨type, name⟩]

/-- Parameters in parentheses. -/
def params (n : Nat) : Parser (List Tree.Param) := do
  expect .leftParen
  let ps ← if ← atMark .rightParen then pure [] else paramList n
  expect .rightParen
  return ps

/-- Fails where a member is of a kind that classes do not have, judged by what follows its name. -/
def requireMethod (name : Tree.Ident) : Parser Unit := do
  match (← get).kind with
  | .mark .equal | .mark .semicolon | .mark .comma => fail .field name.span
  | .mark .leftBrace => fail .property name.span
  | _ => return ()

def method (n : Nat) : Parser Tree.Method := do
  let start := (← get).span
  let mods ← modifiers
  let s ← get
  if s.atKeyword .kwClass then fail .nestedType s.span
  match s.kind, s.ahead 1 with
  | .ident _, .mark .leftParen => fail .constructor s.span
  | _, _ => pure ()
  let result ← typeRef
  let name ← ident
  requireMethod name
  let ps ← params n
  let body ← block n
  return ⟨mods, result, name, ps, body, ← spanFrom start⟩

/-- The methods up to the end of a class. -/
def methods : Nat → Parser (List Tree.Method)
  | 0 => failHere .exhausted
  | n + 1 => do
      let s ← get
      if s.atMark .rightBrace || s.atEnd then return []
      else
        let first ← recovering (method n) State.skipMember
        let rest ← methods n
        return first.toList ++ rest

def cls (n : Nat) : Parser Tree.Class := do
  let start := (← get).span
  let mods ← modifiers
  if !(← acceptKeyword .kwClass) then failHere .definitionExpected
  let name ← ident
  expect .leftBrace
  let ms ← methods n
  let _ ← recovering (expect .rightBrace) id
  return ⟨mods, name, ms, ← spanFrom start⟩

/-- The rest of a path, with a point in front of each name. -/
def importPath : Nat → Parser (List Tree.Ident)
  | 0 => failHere .exhausted
  | n + 1 => do
      if ← accept .dot then
        let name ← ident
        return name :: (← importPath n)
      else return []

def importDecl (n : Nat) : Parser Tree.Import := do
  let start := (← get).span
  advance
  let first ← ident
  let rest ← importPath n
  expect .semicolon
  return ⟨first :: rest, ← spanFrom start⟩

/-- The imports at the front of a source. -/
def imports : Nat → Parser (List Tree.Import)
  | 0 => failHere .exhausted
  | n + 1 => do
      if (← get).atKeyword .kwUsing then
        let first ← recovering (importDecl n) State.skipMember
        let rest ← imports n
        return first.toList ++ rest
      else return []

/-- The classes up to the end of a source. -/
def classes : Nat → Parser (List Tree.Class)
  | 0 => failHere .exhausted
  | n + 1 => do
      if (← get).atEnd then return []
      else
        let first ← recovering (cls n) State.skipToClass
        let rest ← classes n
        return first.toList ++ rest

def source (n : Nat) : Parser Tree.Source := do
  let is ← imports n
  return ⟨is, ← classes n⟩

end Scriptlet.Parser

namespace Scriptlet

/-- A tree and what is wrong with the text it was made from. -/
structure Parsed where
  source : Tree.Source
  diagnostics : List Diagnostic

/-- The tokens with an end behind them. -/
def withEnd (tokens : List Token) : List Token :=
  match tokens.getLast? with
  | none => [⟨.eof, .point 0⟩]
  | some t => if t.kind = .eof then tokens else tokens ++ [⟨.eof, .point t.span.stop⟩]

/-- The tree of a token list. -/
def parse (tokens : List Token) : Parsed :=
  let tokens := withEnd tokens
  let parser := Parser.source (Parser.depthFor tokens.length)
  match parser.run.run ⟨tokens, none, []⟩ with
  | (.ok source, s) => ⟨source, s.diagnostics⟩
  | (.error f, s) => ⟨⟨[], []⟩, (s.report f).diagnostics⟩

/-- The tree of a text. What is wrong with its tokens is reported first. -/
def parseText (text : List Char) : Parsed :=
  let lexed := lex text
  let parsed := parse lexed.tokens
  ⟨parsed.source, lexed.diagnostics ++ parsed.diagnostics⟩

end Scriptlet
