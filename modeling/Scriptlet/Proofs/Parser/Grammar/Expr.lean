import Scriptlet.Parser.Source

namespace Scriptlet

/-!
# The grammar

Which token lists spell which trees. An expression stands in a position, and positions are numbered
from loose to tight: 0 takes everything, 1 all but assignments, `k + 2` binary operators of level
`k` and what binds tighter, 12 prefix operators and casts, 13 only operands and postfix operators.
Parentheses bring an expression into any position. Spans play no part.
-/

/-- The word for a basic type. -/
def BasicType.word : BasicType → Keyword
  | bool => .kwBool
  | byte => .kwByte
  | short => .kwShort
  | int => .kwInt
  | long => .kwLong
  | float => .kwFloat
  | double => .kwDouble
  | char => .kwChar
  | string => .kwString
  | object => .kwObject

namespace Tree

def Literal.token : Literal → TokenKind
  | int value long => .int value long
  | real value single => .real value single
  | string s => .string s
  | char c => .char c
  | bool true => .keyword .kwTrue
  | bool false => .keyword .kwFalse
  | null => .keyword .kwNull

def Operator.mark : Operator → Mark
  | andAlso => .andAnd
  | orElse => .orOr
  | strict .add => .plus
  | strict .sub => .minus
  | strict .mul => .star
  | strict .div => .slash
  | strict .rem => .percent
  | strict .bitAnd => .and
  | strict .bitOr => .or
  | strict .bitXor => .caret
  | strict .shl => .shiftLeft
  | strict .shr => .shiftRight
  | strict .eq => .equalEqual
  | strict .ne => .notEqual
  | strict .lt => .less
  | strict .le => .lessEqual
  | strict .gt => .greater
  | strict .ge => .greaterEqual

theorem Operator.level_le (op : Operator) : op.level ≤ 9 := by
  rcases op with _ | _ | op
  · decide
  · decide
  · cases op <;> decide

def Sign.mark : Sign → Mark
  | plus => .plus
  | strict .neg => .minus
  | strict .not => .bang
  | strict .bitNot => .tilde

/-- The mark of an assignment. Comparisons have no compound assignment. -/
def assignMark? : Option BinaryOp → Option Mark
  | none => some .equal
  | some .add => some .plusEqual
  | some .sub => some .minusEqual
  | some .mul => some .starEqual
  | some .div => some .slashEqual
  | some .rem => some .percentEqual
  | some .bitAnd => some .andEqual
  | some .bitOr => some .orEqual
  | some .bitXor => some .caretEqual
  | some .shl => some .shiftLeftEqual
  | some .shr => some .shiftRightEqual
  | some _ => none

def stepMark (increment : Bool) : Mark :=
  if increment then .plusPlus else .minusMinus

def pathSpelling : List Ident → List TokenKind
  | [] => []
  | i :: path => .ident i.name :: path.flatMap fun j => [.mark .dot, .ident j.name]

def TypeRef.spelling (t : TypeRef) : List TokenKind :=
  match t.shape with
  | .void => [.keyword .kwVoid]
  | .basic b => [.keyword b.word]
  | .named path => pathSpelling path

/-- A type that is not an empty path. -/
def TypeRef.Proper (t : TypeRef) : Prop :=
  t.shape ≠ .named []

instance (t : TypeRef) : Decidable t.Proper :=
  inferInstanceAs (Decidable (_ ≠ _))

end Tree

namespace Grammar

open Scriptlet.Tree (Expr TypeRef Literal Operator Sign assignMark? stepMark)

/-- The parts of which expressions are made. -/
inductive Phrase where
  /-- An expression in a position. -/
  | expr (p : Nat) (e : Expr)
  /-- One or more expressions with commas between them. -/
  | list (es : List Expr)
  /-- Arguments in parentheses. -/
  | args (es : List Expr)

/-- The phrase is spelled by these tokens. -/
inductive Spells : Phrase → List TokenKind → Prop
  | literal {p : Nat} (l : Literal) (span : Text.Span) (hp : p ≤ 13) :
      Spells (.expr p (.literal l span)) [l.token]
  | name {p : Nat} (name : String) (span : Text.Span) (hp : p ≤ 13) :
      Spells (.expr p (.name name span)) [.ident name]
  | memberOfType {p : Nat} (t : BasicType) (tspan : Text.Span) (name : Tree.Ident)
      (span : Text.Span) (hp : p ≤ 13) :
      Spells (.expr p (.member (.type t tspan) name span))
        [.keyword t.word, .mark .dot, .ident name.name]
  | member {p : Nat} {e : Expr} {ts : List TokenKind} (name : Tree.Ident) (span : Text.Span)
      (hp : p ≤ 13) (he : Spells (.expr 13 e) ts) :
      Spells (.expr p (.member e name span)) (ts ++ [.mark .dot, .ident name.name])
  | call {p : Nat} {e : Expr} {es : List Expr} {ts us : List TokenKind} (span : Text.Span)
      (hp : p ≤ 13) (he : Spells (.expr 13 e) ts) (hes : Spells (.args es) us) :
      Spells (.expr p (.call e es span)) (ts ++ us)
  | index {p : Nat} {e i : Expr} {ts us : List TokenKind} (span : Text.Span) (hp : p ≤ 13)
      (he : Spells (.expr 13 e) ts) (hi : Spells (.expr 0 i) us) :
      Spells (.expr p (.index e i span)) (ts ++ .mark .leftBracket :: us ++ [.mark .rightBracket])
  | postfixStep {p : Nat} {e : Expr} {ts : List TokenKind} (increment : Bool) (span : Text.Span)
      (hp : p ≤ 13) (he : Spells (.expr 13 e) ts) :
      Spells (.expr p (.step increment false e span)) (ts ++ [.mark (stepMark increment)])
  | new {p : Nat} {es : List Expr} {us : List TokenKind} (t : TypeRef) (span : Text.Span)
      (hp : p ≤ 13) (ht : t.Proper) (hes : Spells (.args es) us) :
      Spells (.expr p (.new t es span)) (.keyword .kwNew :: t.spelling ++ us)
  | unary {p : Nat} {e : Expr} {ts : List TokenKind} (sign : Sign) (span : Text.Span)
      (hp : p ≤ 12) (he : Spells (.expr 12 e) ts) :
      Spells (.expr p (.unary sign e span)) (.mark sign.mark :: ts)
  | prefixStep {p : Nat} {e : Expr} {ts : List TokenKind} (increment : Bool) (span : Text.Span)
      (hp : p ≤ 12) (he : Spells (.expr 12 e) ts) :
      Spells (.expr p (.step increment true e span)) (.mark (stepMark increment) :: ts)
  | cast {p : Nat} {e : Expr} {ts : List TokenKind} (t : BasicType) (tspan span : Text.Span)
      (hp : p ≤ 12) (he : Spells (.expr 12 e) ts) :
      Spells (.expr p (.cast ⟨.basic t, tspan⟩ e span))
        (.mark .leftParen :: .keyword t.word :: .mark .rightParen :: ts)
  | binary {p : Nat} {l r : Expr} {ts us : List TokenKind} (op : Operator) (span : Text.Span)
      (hp : p ≤ op.level + 2) (hl : Spells (.expr (op.level + 2) l) ts)
      (hr : Spells (.expr (op.level + 3) r) us) :
      Spells (.expr p (.binary op l r span)) (ts ++ .mark op.mark :: us)
  | conditional {p : Nat} {c y n : Expr} {ts us vs : List TokenKind} (span : Text.Span)
      (hp : p ≤ 1) (hc : Spells (.expr 2 c) ts) (hy : Spells (.expr 0 y) us)
      (hn : Spells (.expr 1 n) vs) :
      Spells (.expr p (.conditional c y n span))
        (ts ++ .mark .question :: us ++ .mark .colon :: vs)
  | assign {t v : Expr} {ts us : List TokenKind} {m : Mark} (op : Option BinaryOp)
      (span : Text.Span) (hm : assignMark? op = some m) (ht : Spells (.expr 1 t) ts)
      (hv : Spells (.expr 0 v) us) :
      Spells (.expr 0 (.assign op t v span)) (ts ++ .mark m :: us)
  | parens {e : Expr} {ts : List TokenKind} (p : Nat) (he : Spells (.expr 0 e) ts) :
      Spells (.expr p e) (.mark .leftParen :: ts ++ [.mark .rightParen])
  | one {e : Expr} {ts : List TokenKind} (he : Spells (.expr 0 e) ts) : Spells (.list [e]) ts
  | more {e : Expr} {es : List Expr} {ts us : List TokenKind} (he : Spells (.expr 0 e) ts)
      (hes : Spells (.list es) us) : Spells (.list (e :: es)) (ts ++ .mark .comma :: us)
  | noArgs : Spells (.args []) [.mark .leftParen, .mark .rightParen]
  | someArgs {es : List Expr} {ts : List TokenKind} (hes : Spells (.list es) ts) :
      Spells (.args es) (.mark .leftParen :: ts ++ [.mark .rightParen])

/-- A position can be filled by what a tighter one takes. -/
theorem Spells.mono {p q : Nat} {e : Expr} {ts : List TokenKind} (h : Spells (.expr p e) ts)
    (hq : q ≤ p) : Spells (.expr q e) ts := by
  cases h with
  | literal l span hp => exact .literal l span (Nat.le_trans hq hp)
  | name name span hp => exact .name name span (Nat.le_trans hq hp)
  | memberOfType t tspan name span hp => exact .memberOfType t tspan name span (Nat.le_trans hq hp)
  | member name span hp he => exact .member name span (Nat.le_trans hq hp) he
  | call span hp he hes => exact .call span (Nat.le_trans hq hp) he hes
  | index span hp he hi => exact .index span (Nat.le_trans hq hp) he hi
  | postfixStep increment span hp he => exact .postfixStep increment span (Nat.le_trans hq hp) he
  | new t span hp ht hes => exact .new t span (Nat.le_trans hq hp) ht hes
  | unary sign span hp he => exact .unary sign span (Nat.le_trans hq hp) he
  | prefixStep increment span hp he => exact .prefixStep increment span (Nat.le_trans hq hp) he
  | cast t tspan span hp he => exact .cast t tspan span (Nat.le_trans hq hp) he
  | binary op span hp hl hr => exact .binary op span (Nat.le_trans hq hp) hl hr
  | conditional span hp hc hy hn => exact .conditional span (Nat.le_trans hq hp) hc hy hn
  | assign op span hm ht hv =>
      obtain rfl := Nat.le_zero.1 hq
      exact .assign op span hm ht hv
  | parens _ he => exact .parens q he

end Grammar

namespace Parser

open Scriptlet.Tree (Literal Operator Sign assignMark? stepMark)

/-! The tables of the parser agree with the spellings. -/

theorem literal?_eq_some_iff {k : TokenKind} {l : Literal} : literal? k = some l ↔ k = l.token := by
  constructor
  · intro h
    cases k with
    | keyword k =>
        cases k <;> cases h <;> rfl
    | int | real | string | char =>
        cases h
        rfl
    | ident | mark | eof => cases h
  · rintro rfl
    cases l with
    | bool b => cases b <;> rfl
    | _ => rfl

theorem operator?_eq_some_iff {k : TokenKind} {op : Operator} :
    operator? k = some op ↔ k = .mark op.mark := by
  constructor
  · intro h
    unfold operator? at h
    split at h <;> cases h <;> rfl
  · rintro rfl
    rcases op with _ | _ | op
    · rfl
    · rfl
    · cases op <;> rfl

theorem sign?_eq_some_iff {k : TokenKind} {sign : Sign} :
    sign? k = some sign ↔ k = .mark sign.mark := by
  constructor
  · intro h
    unfold sign? at h
    split at h <;> cases h <;> rfl
  · rintro rfl
    rcases sign with _ | op
    · rfl
    · cases op <;> rfl

theorem step?_eq_some_iff {k : TokenKind} {increment : Bool} :
    step? k = some increment ↔ k = .mark (stepMark increment) := by
  constructor
  · intro h
    unfold step? at h
    split at h <;> cases h <;> rfl
  · rintro rfl
    cases increment <;> rfl

theorem assignment?_eq_some_iff {k : TokenKind} {op : Option BinaryOp} :
    assignment? k = some op ↔ ∃ m, assignMark? op = some m ∧ k = .mark m := by
  constructor
  · intro h
    unfold assignment? at h
    split at h <;> cases h <;> exact ⟨_, rfl, rfl⟩
  · rintro ⟨m, hm, rfl⟩
    rcases op with _ | op
    · cases hm
      rfl
    · cases op <;> cases hm <;> rfl

theorem basicType?_eq_some_iff {k : TokenKind} {t : BasicType} :
    basicType? k = some t ↔ k = .keyword t.word := by
  constructor
  · intro h
    unfold basicType? at h
    split at h <;> cases h <;> rfl
  · rintro rfl
    cases t <;> rfl

end Parser

end Scriptlet
