import Scriptlet.Proofs.Parser.Grammar.Expr

namespace Scriptlet.Grammar

/-!
# The grammar of statements and sources

The grammar leaves open to which `if` an `else` belongs. Modifiers can stand in any order and more
than once.
-/

open Scriptlet.Tree (Block Declarator Expr ForInit Ident Import LocalDecl Method Modifiers Param
  Source Stmt TypeRef)

/-- One or more parts with commas between them. -/
inductive Separated {α : Type} (P : α → List TokenKind → Prop) : List α → List TokenKind → Prop
  | one {a : α} {ts : List TokenKind} (ha : P a ts) : Separated P [a] ts
  | more {a : α} {as : List α} {ts us : List TokenKind} (ha : P a ts) (has : Separated P as us) :
      Separated P (a :: as) (ts ++ .mark .comma :: us)

/-- Parts one behind the other. -/
inductive Sequence {α : Type} (P : α → List TokenKind → Prop) : List α → List TokenKind → Prop
  | nil : Sequence P [] []
  | cons {a : α} {as : List α} {ts us : List TokenKind} (ha : P a ts) (has : Sequence P as us) :
      Sequence P (a :: as) (ts ++ us)

inductive SpellsDeclarator : Declarator → List TokenKind → Prop
  | bare (name : Ident) : SpellsDeclarator ⟨name, none⟩ [.ident name.name]
  | initial {e : Expr} {ts : List TokenKind} (name : Ident) (he : Spells (.expr 0 e) ts) :
      SpellsDeclarator ⟨name, some e⟩ (.ident name.name :: .mark .equal :: ts)

inductive SpellsLocals : LocalDecl → List TokenKind → Prop
  | var {ds : List Declarator} {ts : List TokenKind} (hds : Separated SpellsDeclarator ds ts) :
      SpellsLocals ⟨none, ds⟩ (.keyword .kwVar :: ts)
  | typed {t : TypeRef} {ds : List Declarator} {ts : List TokenKind} (ht : t.Proper)
      (hds : Separated SpellsDeclarator ds ts) : SpellsLocals ⟨some t, ds⟩ (t.spelling ++ ts)

inductive SpellsOption : Option Expr → List TokenKind → Prop
  | none : SpellsOption none []
  | some {e : Expr} {ts : List TokenKind} (he : Spells (.expr 0 e) ts) : SpellsOption (some e) ts

/-- What a `for` does after each turn. -/
inductive SpellsSteps : List Expr → List TokenKind → Prop
  | none : SpellsSteps [] []
  | some {es : List Expr} {ts : List TokenKind} (hes : Spells (.list es) ts) : SpellsSteps es ts

inductive SpellsInit : ForInit → List TokenKind → Prop
  | nothing : SpellsInit .nothing []
  | locals {d : LocalDecl} {ts : List TokenKind} (hd : SpellsLocals d ts) :
      SpellsInit (.locals d) ts
  | exprs {es : List Expr} {ts : List TokenKind} (hes : Spells (.list es) ts) :
      SpellsInit (.exprs es) ts

/-- The parts of which method bodies are made. -/
inductive BodyPhrase where
  | stmt (s : Stmt)
  | stmts (ss : List Stmt)

inductive SpellsBody : BodyPhrase → List TokenKind → Prop
  | block {ss : List Stmt} {ts : List TokenKind} (span : Text.Span)
      (hss : SpellsBody (.stmts ss) ts) :
      SpellsBody (.stmt (.block ss span)) (.mark .leftBrace :: ts ++ [.mark .rightBrace])
  | empty (span : Text.Span) : SpellsBody (.stmt (.empty span)) [.mark .semicolon]
  | locals {d : LocalDecl} {ts : List TokenKind} (span : Text.Span) (hd : SpellsLocals d ts) :
      SpellsBody (.stmt (.locals d span)) (ts ++ [.mark .semicolon])
  | expr {e : Expr} {ts : List TokenKind} (span : Text.Span) (he : Spells (.expr 0 e) ts) :
      SpellsBody (.stmt (.expr e span)) (ts ++ [.mark .semicolon])
  | cond {c : Expr} {y : Stmt} {ts us : List TokenKind} (span : Text.Span)
      (hc : Spells (.expr 0 c) ts) (hy : SpellsBody (.stmt y) us) :
      SpellsBody (.stmt (.cond c y none span))
        (.keyword .kwIf :: .mark .leftParen :: ts ++ .mark .rightParen :: us)
  | condElse {c : Expr} {y n : Stmt} {ts us vs : List TokenKind} (span : Text.Span)
      (hc : Spells (.expr 0 c) ts) (hy : SpellsBody (.stmt y) us) (hn : SpellsBody (.stmt n) vs) :
      SpellsBody (.stmt (.cond c y (some n) span))
        (.keyword .kwIf :: .mark .leftParen :: ts ++ .mark .rightParen :: us ++
          .keyword .kwElse :: vs)
  | loop {c : Expr} {b : Stmt} {ts us : List TokenKind} (span : Text.Span)
      (hc : Spells (.expr 0 c) ts) (hb : SpellsBody (.stmt b) us) :
      SpellsBody (.stmt (.loop c b span))
        (.keyword .kwWhile :: .mark .leftParen :: ts ++ .mark .rightParen :: us)
  | doLoop {c : Expr} {b : Stmt} {ts us : List TokenKind} (span : Text.Span)
      (hb : SpellsBody (.stmt b) ts) (hc : Spells (.expr 0 c) us) :
      SpellsBody (.stmt (.doLoop b c span))
        (.keyword .kwDo :: ts ++ .keyword .kwWhile :: .mark .leftParen :: us ++
          [.mark .rightParen, .mark .semicolon])
  | forLoop {i : ForInit} {c : Option Expr} {steps : List Expr} {b : Stmt}
      {ts us vs ws : List TokenKind} (span : Text.Span) (hi : SpellsInit i ts)
      (hc : SpellsOption c us) (hsteps : SpellsSteps steps vs) (hb : SpellsBody (.stmt b) ws) :
      SpellsBody (.stmt (.forLoop i c steps b span))
        (.keyword .kwFor :: .mark .leftParen :: ts ++ .mark .semicolon :: us ++
          .mark .semicolon :: vs ++ .mark .rightParen :: ws)
  | ret {e : Option Expr} {ts : List TokenKind} (span : Text.Span) (he : SpellsOption e ts) :
      SpellsBody (.stmt (.ret e span)) (.keyword .kwReturn :: ts ++ [.mark .semicolon])
  | throw {e : Expr} {ts : List TokenKind} (span : Text.Span) (he : Spells (.expr 0 e) ts) :
      SpellsBody (.stmt (.throw e span)) (.keyword .kwThrow :: ts ++ [.mark .semicolon])
  | leave (span : Text.Span) :
      SpellsBody (.stmt (.leave span)) [.keyword .kwBreak, .mark .semicolon]
  | next (span : Text.Span) :
      SpellsBody (.stmt (.next span)) [.keyword .kwContinue, .mark .semicolon]
  | nil : SpellsBody (.stmts []) []
  | cons {s : Stmt} {ss : List Stmt} {ts us : List TokenKind} (hs : SpellsBody (.stmt s) ts)
      (hss : SpellsBody (.stmts ss) us) : SpellsBody (.stmts (s :: ss)) (ts ++ us)

/-- The modifiers that a list of words stands for. -/
def modifiersOfWords (words : List Keyword) : Modifiers :=
  ⟨words.contains .kwPublic, words.contains .kwPrivate, words.contains .kwInternal,
    words.contains .kwProtected, words.contains .kwStatic⟩

inductive SpellsModifiers : Modifiers → List TokenKind → Prop
  | words (words : List Keyword) (hwords : ∀ k ∈ words, k.isModifier = true) :
      SpellsModifiers (modifiersOfWords words) (words.map .keyword)

inductive SpellsParam : Param → List TokenKind → Prop
  | param {t : TypeRef} (name : Ident) (ht : t.Proper) :
      SpellsParam ⟨t, name⟩ (t.spelling ++ [.ident name.name])

inductive SpellsParams : List Param → List TokenKind → Prop
  | none : SpellsParams [] []
  | some {ps : List Param} {ts : List TokenKind} (hps : Separated SpellsParam ps ts) :
      SpellsParams ps ts

inductive SpellsMethod : Method → List TokenKind → Prop
  | method {m : Modifiers} {t : TypeRef} {ps : List Param} {body : List Stmt}
      {ms us ts : List TokenKind} (name : Ident) (bspan span : Text.Span)
      (hm : SpellsModifiers m ms) (ht : t.Proper) (hps : SpellsParams ps us)
      (hbody : SpellsBody (.stmts body) ts) :
      SpellsMethod ⟨m, t, name, ps, ⟨body, bspan⟩, span⟩
        (ms ++ t.spelling ++ .ident name.name :: .mark .leftParen :: us ++
          .mark .rightParen :: .mark .leftBrace :: ts ++ [.mark .rightBrace])

inductive SpellsClass : Tree.Class → List TokenKind → Prop
  | cls {m : Modifiers} {methods : List Method} {ms ts : List TokenKind} (name : Ident)
      (span : Text.Span) (hm : SpellsModifiers m ms) (hmethods : Sequence SpellsMethod methods ts) :
      SpellsClass ⟨m, name, methods, span⟩
        (ms ++ .keyword .kwClass :: .ident name.name :: .mark .leftBrace :: ts ++
          [.mark .rightBrace])

inductive SpellsImport : Import → List TokenKind → Prop
  | path (i : Ident) (path : List Ident) (span : Text.Span) :
      SpellsImport ⟨i :: path, span⟩
        (.keyword .kwUsing :: Tree.pathSpelling (i :: path) ++ [.mark .semicolon])

inductive SpellsSource : Source → List TokenKind → Prop
  | source {is : List Import} {cs : List Tree.Class} {ts us : List TokenKind}
      (his : Sequence SpellsImport is ts) (hcs : Sequence SpellsClass cs us) :
      SpellsSource ⟨is, cs⟩ (ts ++ us)

end Scriptlet.Grammar
