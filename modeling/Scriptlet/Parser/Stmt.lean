import Scriptlet.Parser.Expr

namespace Scriptlet.Parser

/-!
# Parsing statements

A block reports the errors of its statements: behind an error it skips to the end of the statement
and goes on with the next one.
-/

open Scriptlet.Tree (Stmt)

/-- Skips past the next semicolon outside braces, or up to a brace that closes none of the skipped
ones. -/
def skipStatement (depth : Nat) (previous : Option Text.Span) :
    List Token → List Token × Option Text.Span
  | [] => ([], previous)
  | t :: rest =>
      match t.kind with
      | .eof => (t :: rest, previous)
      | .mark .leftBrace => skipStatement (depth + 1) (some t.span) rest
      | .mark .rightBrace =>
          if depth = 0 then (t :: rest, previous) else skipStatement (depth - 1) (some t.span) rest
      | .mark .semicolon =>
          if depth = 0 then (rest, some t.span) else skipStatement depth (some t.span) rest
      | _ => skipStatement depth (some t.span) rest

def State.skipStatement (s : State) : State :=
  let (rest, previous) := Parser.skipStatement 0 s.previous s.rest
  { s with rest, previous }

/-- Whether the declaration of variables comes next. -/
def State.atLocals (s : State) : Bool :=
  match s.kind with
  | .keyword .kwVar | .keyword .kwVoid => true
  | .ident _ => startsWithPathAndName s.rest
  | kind => (basicType? kind).isSome && s.ahead 1 != .mark .dot

def declarator (n : Nat) : Parser Tree.Declarator := do
  let name ← ident
  if ← accept .equal then return ⟨name, some (← expr n)⟩ else return ⟨name, none⟩

/-- One or more declarators with commas between them. -/
def declarators : Nat → Parser (List Tree.Declarator)
  | 0 => failHere .exhausted
  | n + 1 => do
      let d ← declarator n
      if ← accept .comma then return d :: (← declarators n) else return [d]

def locals (n : Nat) : Parser Tree.LocalDecl := do
  let type ← if ← acceptKeyword .kwVar then pure none else some <$> typeRef
  return ⟨type, ← declarators n⟩

/-- A condition in parentheses. -/
def condition (n : Nat) : Parser Tree.Expr := do
  expect .leftParen
  let e ← expr n
  expect .rightParen
  return e

/-- The part of a `for` up to its first semicolon. -/
def forInit (n : Nat) : Parser Tree.ForInit := do
  let s ← get
  if s.atMark .semicolon then return .nothing
  else if s.atLocals then return .locals (← locals n)
  else return .exprs (← exprs n)

/-- An expression unless a mark comes first. -/
def exprUnless (m : Mark) (n : Nat) : Parser (Option Tree.Expr) := do
  if ← atMark m then return none else some <$> expr n

mutual

def stmt : Nat → Parser Stmt
  | 0 => failHere .exhausted
  | n + 1 => do
      let s ← get
      let start := s.span
      match s.kind with
      | .mark .leftBrace =>
          let b ← block n
          return .block b.body (← spanFrom start)
      | .mark .semicolon =>
          advance
          return .empty (← spanFrom start)
      | .keyword .kwIf =>
          advance
          let c ← condition n
          let yes ← stmt n
          let no ← if ← acceptKeyword .kwElse then some <$> stmt n else pure none
          return .cond c yes no (← spanFrom start)
      | .keyword .kwWhile =>
          advance
          let c ← condition n
          let body ← stmt n
          return .loop c body (← spanFrom start)
      | .keyword .kwDo =>
          advance
          let body ← stmt n
          expectKeyword .kwWhile
          let c ← condition n
          expect .semicolon
          return .doLoop body c (← spanFrom start)
      | .keyword .kwFor =>
          advance
          expect .leftParen
          let init ← forInit n
          expect .semicolon
          let c ← exprUnless .semicolon n
          expect .semicolon
          let steps ← if ← atMark .rightParen then pure [] else exprs n
          expect .rightParen
          let body ← stmt n
          return .forLoop init c steps body (← spanFrom start)
      | .keyword .kwReturn =>
          advance
          let value ← exprUnless .semicolon n
          expect .semicolon
          return .ret value (← spanFrom start)
      | .keyword .kwThrow =>
          advance
          let value ← expr n
          expect .semicolon
          return .throw value (← spanFrom start)
      | .keyword .kwBreak =>
          advance
          expect .semicolon
          return .leave (← spanFrom start)
      | .keyword .kwContinue =>
          advance
          expect .semicolon
          return .next (← spanFrom start)
      | _ =>
          if s.atLocals then
            let d ← locals n
            expect .semicolon
            return .locals d (← spanFrom start)
          else
            let e ← expr n
            expect .semicolon
            return .expr e (← spanFrom start)

/-- Statements in braces. -/
def block : Nat → Parser Tree.Block
  | 0 => failHere .exhausted
  | n + 1 => do
      let start := (← get).span
      expect .leftBrace
      let body ← stmts n
      let _ ← recovering (expect .rightBrace) id
      return ⟨body, ← spanFrom start⟩

/-- The statements up to the end of a block. -/
def stmts : Nat → Parser (List Stmt)
  | 0 => failHere .exhausted
  | n + 1 => do
      let s ← get
      if s.atMark .rightBrace || s.atEnd then return []
      else
        let first ← recovering (stmt n) State.skipStatement
        let rest ← stmts n
        return first.toList ++ rest

end

end Scriptlet.Parser
