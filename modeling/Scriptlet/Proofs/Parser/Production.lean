import Scriptlet.Proofs.Parser.Lists
import Scriptlet.Proofs.Parser.Outcome

namespace Scriptlet.Parser

/-!
# Productions

The recursive parsers as one family, and each of them in terms of the family. A bound on the depth of
recursion counts how often the family has been put into itself.
-/

open Scriptlet.Tree (Expr Stmt)

/-- The recursive parsers. A loop is the production that goes on with the rest of what it reads. -/
inductive Production where
  | expr
  | conditional
  | binary (level : Nat)
  | binaryTail (level : Nat) (left : Expr)
  | unary
  | postfixTail (e : Expr)
  | primary
  | arguments
  | exprs
  | declarators
  | stmt
  | block
  | stmts
  | paramList
  | methods
  | importPath
  | imports
  | classes

/-- What a production reads. -/
@[reducible] def Production.Part : Production → Type
  | .expr | .conditional | .binary _ | .binaryTail _ _ | .unary | .postfixTail _ | .primary => Expr
  | .arguments | .exprs => List Expr
  | .declarators => List Tree.Declarator
  | .stmt => Stmt
  | .block => Tree.Block
  | .stmts => List Stmt
  | .paramList => List Tree.Param
  | .methods => List Tree.Method
  | .importPath => List Tree.Ident
  | .imports => List Tree.Import
  | .classes => List Tree.Class

/-- A parser for each production. -/
abbrev Productions := (p : Production) → Parser p.Part

/-- The parsers within a depth of recursion. -/
def productions (n : Nat) : Productions
  | .expr => expr n
  | .conditional => conditional n
  | .binary level => binary n level
  | .binaryTail level left => binaryTail n level left
  | .unary => unary n
  | .postfixTail e => postfixTail n e
  | .primary => primary n
  | .arguments => arguments n
  | .exprs => exprs n
  | .declarators => declarators n
  | .stmt => stmt n
  | .block => block n
  | .stmts => stmts n
  | .paramList => paramList n
  | .methods => methods n
  | .importPath => importPath n
  | .imports => imports n
  | .classes => classes n

section

variable {α : Type}

/-- Parts with commas between them. -/
def separated (one : Parser α) (many : Parser (List α)) : Parser (List α) := do
  let a ← one
  if ← accept .comma then return a :: (← many) else return [a]

/-- Parts one behind the other; what is wrong is reported and skipped. -/
def sequence (stops : State → Bool) (one : Parser α) (skip : State → State)
    (many : Parser (List α)) : Parser (List α) := do
  if stops (← get) then return []
  else
    let first ← recovering one skip
    let rest ← many
    return first.toList ++ rest

/-- Parts in front of a closing brace; one that is missing is reported. -/
def closing (many : Parser (List α)) : Parser (List α) := do
  let as ← many
  let _ ← recovering (expect .rightBrace) id
  return as

/-- Parts in braces. -/
def enclosed (many : Parser (List α)) : Parser (List α) := do
  expect .leftBrace
  closing many

end

/-- What stands in front of the braces of a class. -/
def classHead : Parser (Tree.Modifiers × Tree.Ident) := do
  let mods ← modifiers
  if !(← acceptKeyword .kwClass) then failHere .definitionExpected
  let name ← ident
  return (mods, name)

/-- What stands in front of the body of a method. -/
def methodHead (params : Parser (List Tree.Param)) :
    Parser (Tree.Modifiers × Tree.TypeRef × Tree.Ident × List Tree.Param) := do
  let mods ← modifiers
  let s ← get
  if s.atKeyword .kwClass then fail .nestedType s.span
  match s.kind, s.ahead 1 with
  | .ident _, .mark .leftParen => fail .constructor s.span
  | _, _ => pure ()
  let result ← typeRef
  let name ← ident
  requireMethod name
  let ps ← params
  return (mods, result, name, ps)

namespace Productions

def declarator (g : Productions) : Parser Tree.Declarator := do
  let name ← ident
  if ← accept .equal then return ⟨name, some (← g .expr)⟩ else return ⟨name, none⟩

def locals (g : Productions) : Parser Tree.LocalDecl := do
  let type ← if ← acceptKeyword .kwVar then pure none else some <$> typeRef
  return ⟨type, ← g .declarators⟩

def condition (g : Productions) : Parser Expr := do
  expect .leftParen
  let e ← g .expr
  expect .rightParen
  return e

def forInit (g : Productions) : Parser Tree.ForInit := do
  let s ← get
  if s.atMark .semicolon then return .nothing
  else if s.atLocals then return .locals (← g.locals)
  else return .exprs (← g .exprs)

def exprUnless (g : Productions) (m : Mark) : Parser (Option Expr) := do
  if ← atMark m then return none else some <$> g .expr

def params (g : Productions) : Parser (List Tree.Param) := do
  expect .leftParen
  let ps ← if ← atMark .rightParen then pure [] else g .paramList
  expect .rightParen
  return ps

def method (g : Productions) : Parser Tree.Method := do
  let start := (← get).span
  let (mods, result, name, ps) ← methodHead g.params
  let body ← g .block
  return ⟨mods, result, name, ps, body, ← spanFrom start⟩

def cls (g : Productions) : Parser Tree.Class := do
  let start := (← get).span
  let (mods, name) ← classHead
  let ms ← enclosed (g .methods)
  return ⟨mods, name, ms, ← spanFrom start⟩

def importDecl (g : Productions) : Parser Tree.Import := do
  let start := (← get).span
  advance
  let first ← ident
  let rest ← g .importPath
  expect .semicolon
  return ⟨first :: rest, ← spanFrom start⟩

/-- Each production in terms of what the productions are. -/
def round (g : Productions) : Productions
  | .expr => do
      let target ← g .conditional
      match assignment? (← get).kind with
      | none => return target
      | some op =>
          advance
          let value ← g .expr
          return .assign op target value (target.span.merge value.span)
  | .conditional => do
      let condition ← g (.binary 0)
      if ← accept .question then
        let yes ← g .expr
        expect .colon
        let no ← g .conditional
        return .conditional condition yes no (condition.span.merge no.span)
      else return condition
  | .binary level => do g (.binaryTail level (← g .unary))
  | .binaryTail level left => do
      match operator? (← get).kind with
      | none => return left
      | some op =>
          if level ≤ op.level then
            advance
            let right ← g (.binary (op.level + 1))
            g (.binaryTail level (.binary op left right (left.span.merge right.span)))
          else return left
  | .unary => do
      let s ← get
      match sign? s.kind, step? s.kind with
      | some sign, _ =>
          advance
          let operand ← g .unary
          return .unary sign operand (s.span.merge operand.span)
      | none, some increment =>
          advance
          let target ← g .unary
          return .step increment true target (s.span.merge target.span)
      | none, none =>
          if s.atCast then
            advance
            let type ← typeRef
            expect .rightParen
            let operand ← g .unary
            return .cast type operand (s.span.merge operand.span)
          else g (.postfixTail (← g .primary))
  | .postfixTail e => do
      match (← get).kind with
      | .mark .dot =>
          advance
          let name ← ident
          g (.postfixTail (.member e name (e.span.merge name.span)))
      | .mark .leftParen =>
          let args ← g .arguments
          g (.postfixTail (.call e args (← spanFrom e.span)))
      | .mark .leftBracket =>
          advance
          let index ← g .expr
          expect .rightBracket
          g (.postfixTail (.index e index (← spanFrom e.span)))
      | .mark .plusPlus =>
          advance
          g (.postfixTail (.step true false e (← spanFrom e.span)))
      | .mark .minusMinus =>
          advance
          g (.postfixTail (.step false false e (← spanFrom e.span)))
      | _ => return e
  | .primary => do
      let s ← get
      match s.kind with
      | .mark .leftParen =>
          advance
          let inner ← g .expr
          expect .rightParen
          return inner
      | .keyword .kwNew =>
          advance
          let type ← typeRef
          let args ← g .arguments
          return .new type args (← spanFrom s.span)
      | _ => atom
  | .arguments => do
      expect .leftParen
      let args ← if ← atMark .rightParen then pure [] else g .exprs
      expect .rightParen
      return args
  | .exprs => separated (g .expr) (g .exprs)
  | .declarators => separated g.declarator (g .declarators)
  | .stmt => do
      let s ← get
      let start := s.span
      match s.kind with
      | .mark .leftBrace =>
          let b ← g .block
          return .block b.body (← spanFrom start)
      | .mark .semicolon =>
          advance
          return .empty (← spanFrom start)
      | .keyword .kwIf =>
          advance
          let c ← g.condition
          let yes ← g .stmt
          let no ← if ← acceptKeyword .kwElse then some <$> g .stmt else pure none
          return .cond c yes no (← spanFrom start)
      | .keyword .kwWhile =>
          advance
          let c ← g.condition
          let body ← g .stmt
          return .loop c body (← spanFrom start)
      | .keyword .kwDo =>
          advance
          let body ← g .stmt
          expectKeyword .kwWhile
          let c ← g.condition
          expect .semicolon
          return .doLoop body c (← spanFrom start)
      | .keyword .kwFor =>
          advance
          expect .leftParen
          let init ← g.forInit
          expect .semicolon
          let c ← g.exprUnless .semicolon
          expect .semicolon
          let steps ← if ← atMark .rightParen then pure [] else g .exprs
          expect .rightParen
          let body ← g .stmt
          return .forLoop init c steps body (← spanFrom start)
      | .keyword .kwReturn =>
          advance
          let value ← g.exprUnless .semicolon
          expect .semicolon
          return .ret value (← spanFrom start)
      | .keyword .kwThrow =>
          advance
          let value ← g .expr
          expect .semicolon
          return .throw value (← spanFrom start)
      | .keyword .kwBreak =>
          advance
          expect .semicolon
          return .leave (← spanFrom start)
      | .keyword .kwContinue =>
          advance
          expect .semicolon
          return .next (← spanFrom start)
      | _ =>
          if s.atLocals then
            let d ← g.locals
            expect .semicolon
            return .locals d (← spanFrom start)
          else
            let e ← g .expr
            expect .semicolon
            return .expr e (← spanFrom start)
  | .block => do
      let start := (← get).span
      let body ← enclosed (g .stmts)
      return ⟨body, ← spanFrom start⟩
  | .stmts => sequence State.atClose (g .stmt) State.skipStatement (g .stmts)
  | .paramList => separated param (g .paramList)
  | .methods => sequence State.atClose g.method State.skipMember (g .methods)
  | .importPath => do
      if ← accept .dot then
        let name ← ident
        return name :: (← g .importPath)
      else return []
  | .imports =>
      sequence (fun s => !s.atKeyword .kwUsing) g.importDecl State.skipMember (g .imports)
  | .classes => sequence State.atEnd g.cls State.skipToClass (g .classes)

end Productions

theorem cls_eq (n : Nat) : cls n = do
    let start := (← get).span
    let (mods, name) ← classHead
    let ms ← enclosed (methods n)
    return ⟨mods, name, ms, ← spanFrom start⟩ := by
  unfold cls classHead enclosed closing
  simp only [bind_assoc]
  congr 1
  funext s
  congr 1
  funext mods
  congr 1
  funext b
  cases b
  · rfl
  · simp only [Bool.not_true, Bool.false_eq_true, if_false, bind_assoc, pure_bind]

theorem method_eq (n : Nat) : method n = do
    let start := (← get).span
    let (mods, result, name, ps) ← methodHead (params n)
    let body ← block n
    return ⟨mods, result, name, ps, body, ← spanFrom start⟩ := by
  unfold method methodHead
  simp only [bind_assoc]
  congr 1
  funext s
  congr 1
  funext mods
  congr 1
  funext s'
  by_cases hclass : s'.atKeyword .kwClass = true
  · rw [if_pos hclass, if_pos hclass]
    rfl
  · rw [if_neg hclass, if_neg hclass]
    split
    · simp_all only [bind_assoc, pure_bind]
    · simp only [bind_assoc, pure_bind]

/-- A deeper recursion puts the family once more into itself. -/
theorem productions_succ (n : Nat) : productions (n + 1) = (productions n).round := by
  funext p
  cases p with
  | block =>
      change block (n + 1) = _
      simp only [block, Productions.round, enclosed, closing, productions, bind_assoc, pure_bind]
  | paramList =>
      change paramList (n + 1) = _
      rw [isSeparated_paramList.succ]
      rfl
  | imports =>
      change imports (n + 1) = _
      rw [isSequence_imports.succ]
      rfl
  | methods =>
      change methods (n + 1) =
        sequence State.atClose (productions n).method State.skipMember (methods n)
      rw [isSequence_methods.succ, method_eq]
      rfl
  | classes =>
      change classes (n + 1) = sequence State.atEnd (productions n).cls State.skipToClass (classes n)
      rw [isSequence_classes.succ, cls_eq]
      rfl
  | _ => rfl

end Scriptlet.Parser
