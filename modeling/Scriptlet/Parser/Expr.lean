import Scriptlet.Parser.Basic

namespace Scriptlet.Parser

/-!
# Parsing expressions

From loose to tight: assignment, the conditional, ten levels of binary operators, prefix operators
and casts, postfix operators. Assignment and the conditional are right associative and binary
operators left associative. The first argument of each parser bounds the depth of its recursion;
`depthFor` gives a bound that is never used up.
-/

open Scriptlet.Tree (Expr)

/-- The operator of an assignment, if a token is one. -/
def assignment? : TokenKind → Option (Option BinaryOp)
  | .mark .equal => some none
  | .mark .plusEqual => some (some .add)
  | .mark .minusEqual => some (some .sub)
  | .mark .starEqual => some (some .mul)
  | .mark .slashEqual => some (some .div)
  | .mark .percentEqual => some (some .rem)
  | .mark .andEqual => some (some .bitAnd)
  | .mark .orEqual => some (some .bitOr)
  | .mark .caretEqual => some (some .bitXor)
  | .mark .shiftLeftEqual => some (some .shl)
  | .mark .shiftRightEqual => some (some .shr)
  | _ => none

def operator? : TokenKind → Option Tree.Operator
  | .mark .orOr => some .orElse
  | .mark .andAnd => some .andAlso
  | .mark .or => some (.strict .bitOr)
  | .mark .caret => some (.strict .bitXor)
  | .mark .and => some (.strict .bitAnd)
  | .mark .equalEqual => some (.strict .eq)
  | .mark .notEqual => some (.strict .ne)
  | .mark .less => some (.strict .lt)
  | .mark .lessEqual => some (.strict .le)
  | .mark .greater => some (.strict .gt)
  | .mark .greaterEqual => some (.strict .ge)
  | .mark .shiftLeft => some (.strict .shl)
  | .mark .shiftRight => some (.strict .shr)
  | .mark .plus => some (.strict .add)
  | .mark .minus => some (.strict .sub)
  | .mark .star => some (.strict .mul)
  | .mark .slash => some (.strict .div)
  | .mark .percent => some (.strict .rem)
  | _ => none

def sign? : TokenKind → Option Tree.Sign
  | .mark .minus => some (.strict .neg)
  | .mark .plus => some .plus
  | .mark .bang => some (.strict .not)
  | .mark .tilde => some (.strict .bitNot)
  | _ => none

/-- Whether a token steps a variable, and whether it steps it up. -/
def step? : TokenKind → Option Bool
  | .mark .plusPlus => some true
  | .mark .minusMinus => some false
  | _ => none

def literal? : TokenKind → Option Tree.Literal
  | .int value long => some (.int value long)
  | .real value single => some (.real value single)
  | .string s => some (.string s)
  | .char c => some (.char c)
  | .keyword .kwTrue => some (.bool true)
  | .keyword .kwFalse => some (.bool false)
  | .keyword .kwNull => some .null
  | _ => none

/-- Whether a cast comes next: the keyword of a basic type in parentheses. -/
def State.atCast (s : State) : Bool :=
  s.atMark .leftParen && (basicType? (s.ahead 1)).isSome && s.ahead 2 == .mark .rightParen

/-- A bound on the depth of recursion over this many tokens. -/
def depthFor (tokens : Nat) : Nat :=
  8 * (tokens + 2)

/-- A literal, a name or a type in front of a point. -/
def atom : Parser Expr := do
  let s ← get
  match literal? s.kind with
  | some l =>
      advance
      return .literal l s.span
  | none =>
      match s.kind with
      | .ident name =>
          advance
          return .name name s.span
      | kind =>
          match basicType? kind, s.ahead 1 with
          | some t, .mark .dot =>
              advance
              return .type t s.span
          | _, _ => fail (.invalidTerm kind.text) s.span

mutual

/-- An expression, with assignments. -/
def expr : Nat → Parser Expr
  | 0 => failHere .exhausted
  | n + 1 => do
      let target ← conditional n
      match assignment? (← get).kind with
      | none => return target
      | some op =>
          advance
          let value ← expr n
          return .assign op target value (target.span.merge value.span)

def conditional : Nat → Parser Expr
  | 0 => failHere .exhausted
  | n + 1 => do
      let condition ← binary n 0
      if ← accept .question then
        let yes ← expr n
        expect .colon
        let no ← conditional n
        return .conditional condition yes no (condition.span.merge no.span)
      else return condition

/-- Operands and operators of a level and tighter ones. -/
def binary : Nat → Nat → Parser Expr
  | 0, _ => failHere .exhausted
  | n + 1, level => do binaryTail n level (← unary n)

/-- What continues a left operand. -/
def binaryTail : Nat → Nat → Expr → Parser Expr
  | 0, _, _ => failHere .exhausted
  | n + 1, level, left => do
      match operator? (← get).kind with
      | none => return left
      | some op =>
          if level ≤ op.level then
            advance
            let right ← binary n (op.level + 1)
            binaryTail n level (.binary op left right (left.span.merge right.span))
          else return left

def unary : Nat → Parser Expr
  | 0 => failHere .exhausted
  | n + 1 => do
      let s ← get
      match sign? s.kind, step? s.kind with
      | some sign, _ =>
          advance
          let operand ← unary n
          return .unary sign operand (s.span.merge operand.span)
      | none, some increment =>
          advance
          let target ← unary n
          return .step increment true target (s.span.merge target.span)
      | none, none =>
          if s.atCast then
            advance
            let type ← typeRef
            expect .rightParen
            let operand ← unary n
            return .cast type operand (s.span.merge operand.span)
          else postfixTail n (← primary n)

/-- What continues an operand of postfix operators. -/
def postfixTail : Nat → Expr → Parser Expr
  | 0, _ => failHere .exhausted
  | n + 1, e => do
      match (← get).kind with
      | .mark .dot =>
          advance
          let name ← ident
          postfixTail n (.member e name (e.span.merge name.span))
      | .mark .leftParen =>
          let args ← arguments n
          postfixTail n (.call e args (← spanFrom e.span))
      | .mark .leftBracket =>
          advance
          let index ← expr n
          expect .rightBracket
          postfixTail n (.index e index (← spanFrom e.span))
      | .mark .plusPlus =>
          advance
          postfixTail n (.step true false e (← spanFrom e.span))
      | .mark .minusMinus =>
          advance
          postfixTail n (.step false false e (← spanFrom e.span))
      | _ => return e

def primary : Nat → Parser Expr
  | 0 => failHere .exhausted
  | n + 1 => do
      let s ← get
      match s.kind with
      | .mark .leftParen =>
          advance
          let inner ← expr n
          expect .rightParen
          return inner
      | .keyword .kwNew =>
          advance
          let type ← typeRef
          let args ← arguments n
          return .new type args (← spanFrom s.span)
      | _ => atom

/-- Arguments in parentheses. -/
def arguments : Nat → Parser (List Expr)
  | 0 => failHere .exhausted
  | n + 1 => do
      expect .leftParen
      let args ← if ← atMark .rightParen then pure [] else exprs n
      expect .rightParen
      return args

/-- One or more expressions with commas between them. -/
def exprs : Nat → Parser (List Expr)
  | 0 => failHere .exhausted
  | n + 1 => do
      let e ← expr n
      if ← accept .comma then return e :: (← exprs n) else return [e]

end

end Scriptlet.Parser
