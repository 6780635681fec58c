import Scriptlet.Proofs.Parser.Grammar.Source

namespace Scriptlet.Tree

/-!
# Printing

The tokens of a tree. A part of an expression is put in parentheses where it stands in a position
that is too tight for it; further parentheses can be asked for anywhere but around a type.
-/

/-- The tightest position in which an expression stands without parentheses. -/
def Expr.position : Expr → Nat
  | .assign _ _ _ _ => 0
  | .conditional _ _ _ _ => 1
  | .binary op _ _ _ => op.level + 2
  | .unary _ _ _ => 12
  | .cast _ _ _ => 12
  | .step _ true _ _ => 12
  | _ => 13

def Expr.isType : Expr → Bool
  | .type _ _ => true
  | _ => false

/-- Tokens in pairs of parentheses. -/
def enclosed : Nat → List TokenKind → List TokenKind
  | 0, ts => ts
  | n + 1, ts => .mark .leftParen :: enclosed n ts ++ [.mark .rightParen]

/-- Token lists with commas between them. -/
def commas : List (List TokenKind) → List TokenKind
  | [] => []
  | [ts] => ts
  | ts :: us :: tss => ts ++ .mark .comma :: commas (us :: tss)

section

variable (extra : Expr → Nat)

/-- An expression, rendered as `ts`, in a position. -/
def Expr.inPosition (p : Nat) (e : Expr) (ts : List TokenKind) : List TokenKind :=
  if e.isType then ts else enclosed (extra e + if e.position < p then 1 else 0) ts

mutual

/-- The tokens of an expression without parentheses around it. -/
def Expr.rendered : Expr → List TokenKind
  | .literal l _ => [l.token]
  | .name name _ => [.ident name]
  | .type t _ => [.keyword t.word]
  | .member e name _ => e.inPosition extra 13 e.rendered ++ [.mark .dot, .ident name.name]
  | .call e es _ =>
      e.inPosition extra 13 e.rendered ++
        .mark .leftParen :: commas (renderedExprs es) ++ [.mark .rightParen]
  | .index e i _ =>
      e.inPosition extra 13 e.rendered ++
        .mark .leftBracket :: i.inPosition extra 0 i.rendered ++ [.mark .rightBracket]
  | .new t es _ =>
      .keyword .kwNew :: t.spelling ++
        .mark .leftParen :: commas (renderedExprs es) ++ [.mark .rightParen]
  | .unary sign e _ => .mark sign.mark :: e.inPosition extra 12 e.rendered
  | .binary op l r _ =>
      l.inPosition extra (op.level + 2) l.rendered ++
        .mark op.mark :: r.inPosition extra (op.level + 3) r.rendered
  | .assign op t v _ =>
      t.inPosition extra 1 t.rendered ++
        .mark ((assignMark? op).getD .equal) :: v.inPosition extra 0 v.rendered
  | .step increment true e _ => .mark (stepMark increment) :: e.inPosition extra 12 e.rendered
  | .step increment false e _ => e.inPosition extra 13 e.rendered ++ [.mark (stepMark increment)]
  | .conditional c y n _ =>
      c.inPosition extra 2 c.rendered ++ .mark .question :: y.inPosition extra 0 y.rendered ++
        .mark .colon :: n.inPosition extra 1 n.rendered
  | .cast t e _ =>
      .mark .leftParen :: t.spelling ++ .mark .rightParen :: e.inPosition extra 12 e.rendered

def renderedExprs : List Expr → List (List TokenKind)
  | [] => []
  | e :: es => e.inPosition extra 0 e.rendered :: renderedExprs es

end

/-- Arguments in parentheses. -/
def renderedArgs (es : List Expr) : List TokenKind :=
  .mark .leftParen :: commas (renderedExprs extra es) ++ [.mark .rightParen]

def Declarator.rendered (d : Declarator) : List TokenKind :=
  match d.value with
  | none => [.ident d.name.name]
  | some e => .ident d.name.name :: .mark .equal :: e.inPosition extra 0 (e.rendered extra)

def LocalDecl.rendered (d : LocalDecl) : List TokenKind :=
  (d.type.elim [.keyword .kwVar] TypeRef.spelling) ++
    commas (d.declarators.map (Declarator.rendered extra))

def renderedOption : Option Expr → List TokenKind
  | none => []
  | some e => e.inPosition extra 0 (e.rendered extra)

def ForInit.rendered : ForInit → List TokenKind
  | .nothing => []
  | .locals d => d.rendered extra
  | .exprs es => commas (renderedExprs extra es)

mutual

def Stmt.rendered : Stmt → List TokenKind
  | .block body _ => .mark .leftBrace :: renderedStmts body ++ [.mark .rightBrace]
  | .empty _ => [.mark .semicolon]
  | .locals d _ => d.rendered extra ++ [.mark .semicolon]
  | .expr e _ => e.inPosition extra 0 (e.rendered extra) ++ [.mark .semicolon]
  | .cond c yes none _ =>
      .keyword .kwIf :: .mark .leftParen :: c.inPosition extra 0 (c.rendered extra) ++
        .mark .rightParen :: yes.rendered
  | .cond c yes (some no) _ =>
      .keyword .kwIf :: .mark .leftParen :: c.inPosition extra 0 (c.rendered extra) ++
        .mark .rightParen :: yes.rendered ++ .keyword .kwElse :: no.rendered
  | .loop c body _ =>
      .keyword .kwWhile :: .mark .leftParen :: c.inPosition extra 0 (c.rendered extra) ++
        .mark .rightParen :: body.rendered
  | .doLoop body c _ =>
      .keyword .kwDo :: body.rendered ++
        .keyword .kwWhile :: .mark .leftParen :: c.inPosition extra 0 (c.rendered extra) ++
        [.mark .rightParen, .mark .semicolon]
  | .forLoop i c steps body _ =>
      .keyword .kwFor :: .mark .leftParen :: i.rendered extra ++
        .mark .semicolon :: renderedOption extra c ++
        .mark .semicolon :: commas (renderedExprs extra steps) ++
        .mark .rightParen :: body.rendered
  | .ret e _ => .keyword .kwReturn :: renderedOption extra e ++ [.mark .semicolon]
  | .throw e _ =>
      .keyword .kwThrow :: e.inPosition extra 0 (e.rendered extra) ++ [.mark .semicolon]
  | .leave _ => [.keyword .kwBreak, .mark .semicolon]
  | .next _ => [.keyword .kwContinue, .mark .semicolon]

def renderedStmts : List Stmt → List TokenKind
  | [] => []
  | s :: ss => s.rendered ++ renderedStmts ss

end

/-- The words for modifiers, each at most once. -/
def Modifiers.words (m : Modifiers) : List Keyword :=
  ([(m.isPublic, .kwPublic), (m.isPrivate, .kwPrivate), (m.isInternal, .kwInternal),
    (m.isProtected, .kwProtected), (m.isStatic, .kwStatic)].filter Prod.fst).map Prod.snd

def Modifiers.rendered (m : Modifiers) : List TokenKind :=
  m.words.map .keyword

def Param.rendered (p : Param) : List TokenKind :=
  p.type.spelling ++ [.ident p.name.name]

def Method.rendered (m : Method) : List TokenKind :=
  m.modifiers.rendered ++ m.result.spelling ++
    .ident m.name.name :: .mark .leftParen :: commas (m.params.map Param.rendered) ++
    .mark .rightParen :: .mark .leftBrace :: renderedStmts extra m.body.body ++ [.mark .rightBrace]

def Class.rendered (c : Class) : List TokenKind :=
  c.modifiers.rendered ++
    .keyword .kwClass :: .ident c.name.name ::
    .mark .leftBrace :: c.methods.flatMap (Method.rendered extra) ++ [.mark .rightBrace]

def Import.rendered (i : Import) : List TokenKind :=
  .keyword .kwUsing :: pathSpelling i.path ++ [.mark .semicolon]

def Source.rendered (u : Source) : List TokenKind :=
  u.imports.flatMap Import.rendered ++ u.classes.flatMap (Class.rendered extra)

end

/-! A tree is well formed if the grammar has it: types stand only in front of members, casts are to
basic types, and paths, declarators and expressions that begin a `for` are not missing. -/

mutual

def Expr.wellFormed : Expr → Bool
  | .literal _ _ => true
  | .name _ _ => true
  | .type _ _ => false
  | .member e _ _ => e.isType || e.wellFormed
  | .call e es _ => e.wellFormed && wellFormedExprs es
  | .index e i _ => e.wellFormed && i.wellFormed
  | .new t es _ => decide t.Proper && wellFormedExprs es
  | .unary _ e _ => e.wellFormed
  | .binary _ l r _ => l.wellFormed && r.wellFormed
  | .assign op t v _ => (assignMark? op).isSome && t.wellFormed && v.wellFormed
  | .step _ _ e _ => e.wellFormed
  | .conditional c y n _ => c.wellFormed && y.wellFormed && n.wellFormed
  | .cast ⟨.basic _, _⟩ e _ => e.wellFormed
  | .cast _ _ _ => false

def wellFormedExprs : List Expr → Bool
  | [] => true
  | e :: es => e.wellFormed && wellFormedExprs es

end

def LocalDecl.wellFormed (d : LocalDecl) : Bool :=
  d.type.all (fun t => decide t.Proper) && !d.declarators.isEmpty &&
    d.declarators.all fun d => d.value.all Expr.wellFormed

def ForInit.wellFormed : ForInit → Bool
  | .nothing => true
  | .locals d => d.wellFormed
  | .exprs es => !es.isEmpty && wellFormedExprs es

mutual

def Stmt.wellFormed : Stmt → Bool
  | .block body _ => wellFormedStmts body
  | .locals d _ => d.wellFormed
  | .expr e _ => e.wellFormed
  | .cond c yes none _ => c.wellFormed && yes.wellFormed
  | .cond c yes (some no) _ => c.wellFormed && yes.wellFormed && no.wellFormed
  | .loop c body _ => c.wellFormed && body.wellFormed
  | .doLoop body c _ => body.wellFormed && c.wellFormed
  | .forLoop i c steps body _ =>
      i.wellFormed && c.all Expr.wellFormed && wellFormedExprs steps && body.wellFormed
  | .ret e _ => e.all Expr.wellFormed
  | .throw e _ => e.wellFormed
  | .empty _ => true
  | .leave _ => true
  | .next _ => true

def wellFormedStmts : List Stmt → Bool
  | [] => true
  | s :: ss => s.wellFormed && wellFormedStmts ss

end

def Method.wellFormed (m : Method) : Bool :=
  decide m.result.Proper && m.params.all (fun p => decide p.type.Proper) &&
    wellFormedStmts m.body.body

def Source.wellFormed (u : Source) : Bool :=
  u.imports.all (fun i => !i.path.isEmpty) &&
    u.classes.all fun c => c.methods.all Method.wellFormed

end Scriptlet.Tree

namespace Scriptlet.Grammar

open Scriptlet.Tree

/-! What is printed is spelled by the grammar. -/

section

variable {extra : Expr → Nat}

theorem separated_commas {α : Type} {P : α → List TokenKind → Prop} {f : α → List TokenKind}
    {as : List α} (h : ∀ a ∈ as, P a (f a)) (hne : as ≠ []) :
    Separated P as (commas (as.map f)) := by
  induction as with
  | nil => exact absurd rfl hne
  | cons a as ih =>
      obtain ⟨ha, has⟩ := List.forall_mem_cons.1 h
      cases as with
      | nil => exact .one ha
      | cons b as => exact .more ha (ih has (List.cons_ne_nil _ _))

theorem spells_list_of_separated {es : List Expr} {ts : List TokenKind}
    (h : Separated (fun e ts => Spells (.expr 0 e) ts) es ts) : Spells (.list es) ts := by
  induction h with
  | one he => exact .one he
  | more he _ ih => exact .more he ih

theorem spells_enclosed {e : Expr} {ts : List TokenKind} (h : Spells (.expr 0 e) ts) (p n : Nat) :
    Spells (.expr p e) (enclosed (n + 1) ts) := by
  induction n generalizing p with
  | zero => exact .parens p h
  | succ n ih => exact .parens p (ih 0)

theorem isType_eq_false {p : Nat} {e : Expr} {ts : List TokenKind} (h : Spells (.expr p e) ts) :
    e.isType = false := by
  generalize hphrase : Phrase.expr p e = phrase at h
  induction h generalizing p with
  | parens _ _ ih => cases hphrase; exact ih rfl
  | _ => cases hphrase <;> rfl

/-- In a position that is too tight an expression stands in parentheses. -/
theorem spells_inPosition {e : Expr} {ts : List TokenKind} (h : Spells (.expr e.position e) ts)
    (p : Nat) : Spells (.expr p e) (e.inPosition extra p ts) := by
  rw [Expr.inPosition, isType_eq_false h, if_neg Bool.false_ne_true]
  cases hn : extra e + if e.position < p then 1 else 0 with
  | zero =>
      have hp : ¬e.position < p := fun hlt => by
        rw [if_pos hlt] at hn
        exact absurd hn (Nat.succ_ne_zero _)
      exact h.mono (Nat.not_lt.1 hp)
  | succ n => exact spells_enclosed (h.mono (Nat.zero_le _)) p n

theorem renderedExprs_eq_map (es : List Expr) :
    renderedExprs extra es = es.map fun e => e.inPosition extra 0 (e.rendered extra) := by
  induction es with
  | nil => rfl
  | cons e es ih => rw [renderedExprs, ih, List.map_cons]

theorem spells_list_rendered {es : List Expr}
    (h : ∀ e ∈ es, Spells (.expr e.position e) (e.rendered extra)) (hne : es ≠ []) :
    Spells (.list es) (commas (renderedExprs extra es)) := by
  rw [renderedExprs_eq_map]
  exact spells_list_of_separated (separated_commas (fun e he => spells_inPosition (h e he) 0) hne)

theorem spells_args_rendered {es : List Expr}
    (h : ∀ e ∈ es, Spells (.expr e.position e) (e.rendered extra)) :
    Spells (.args es) (renderedArgs extra es) := by
  cases es with
  | nil => exact .noArgs
  | cons e es => exact .someArgs (spells_list_rendered h (List.cons_ne_nil _ _))

mutual

theorem spells_rendered : ∀ (e : Expr), e.wellFormed = true →
    Spells (.expr e.position e) (e.rendered extra)
  | .literal l span, _ => by
      rw [Expr.rendered]
      exact .literal l span (Nat.le_refl _)
  | .name name span, _ => by
      rw [Expr.rendered]
      exact .name name span (Nat.le_refl _)
  | .type t span, h => by cases h
  | .member e name span, h => by
      rw [Expr.wellFormed, Bool.or_eq_true] at h
      rw [Expr.rendered]
      by_cases htype : e.isType = true
      · cases e with
        | type t tspan => exact .memberOfType t tspan name span (Nat.le_refl _)
        | _ => cases htype
      · exact .member name span (Nat.le_refl _)
          (spells_inPosition (spells_rendered e (h.resolve_left htype)) 13)
  | .call e es span, h => by
      rw [Expr.wellFormed, Bool.and_eq_true] at h
      rw [Expr.rendered, List.append_assoc]
      exact .call span (Nat.le_refl _) (spells_inPosition (spells_rendered e h.1) 13)
        (spells_args_rendered (spells_renderedAll es h.2))
  | .index e i span, h => by
      rw [Expr.wellFormed, Bool.and_eq_true] at h
      rw [Expr.rendered]
      exact .index span (Nat.le_refl _) (spells_inPosition (spells_rendered e h.1) 13)
        (spells_inPosition (spells_rendered i h.2) 0)
  | .new t es span, h => by
      rw [Expr.wellFormed, Bool.and_eq_true] at h
      rw [Expr.rendered, List.append_assoc]
      exact .new t span (Nat.le_refl _) (of_decide_eq_true h.1)
        (spells_args_rendered (spells_renderedAll es h.2))
  | .unary sign e span, h => by
      rw [Expr.wellFormed] at h
      rw [Expr.rendered]
      exact .unary sign span (Nat.le_refl _) (spells_inPosition (spells_rendered e h) 12)
  | .binary op l r span, h => by
      rw [Expr.wellFormed, Bool.and_eq_true] at h
      rw [Expr.rendered]
      exact .binary op span (Nat.le_refl _) (spells_inPosition (spells_rendered l h.1) _)
        (spells_inPosition (spells_rendered r h.2) _)
  | .assign op t v span, h => by
      rw [Expr.wellFormed, Bool.and_eq_true, Bool.and_eq_true] at h
      obtain ⟨m, hm⟩ := Option.isSome_iff_exists.1 h.1.1
      rw [Expr.rendered, hm, Option.getD_some]
      exact .assign op span hm (spells_inPosition (spells_rendered t h.1.2) 1)
        (spells_inPosition (spells_rendered v h.2) 0)
  | .step increment true e span, h => by
      rw [Expr.wellFormed] at h
      rw [Expr.rendered]
      exact .prefixStep increment span (Nat.le_refl _) (spells_inPosition (spells_rendered e h) 12)
  | .step increment false e span, h => by
      rw [Expr.wellFormed] at h
      rw [Expr.rendered]
      exact .postfixStep increment span (Nat.le_refl _)
        (spells_inPosition (spells_rendered e h) 13)
  | .conditional c y n span, h => by
      rw [Expr.wellFormed, Bool.and_eq_true, Bool.and_eq_true] at h
      rw [Expr.rendered]
      exact .conditional span (Nat.le_refl _) (spells_inPosition (spells_rendered c h.1.1) 2)
        (spells_inPosition (spells_rendered y h.1.2) 0)
        (spells_inPosition (spells_rendered n h.2) 1)
  | .cast ⟨.basic b, tspan⟩ e span, h => by
      rw [Expr.wellFormed] at h
      rw [Expr.rendered]
      exact .cast b tspan span (Nat.le_refl _) (spells_inPosition (spells_rendered e h) 12)
  | .cast ⟨.void, _⟩ _ _, h => by cases h
  | .cast ⟨.named _, _⟩ _ _, h => by cases h

theorem spells_renderedAll : ∀ (es : List Expr), wellFormedExprs es = true →
    ∀ e ∈ es, Spells (.expr e.position e) (e.rendered extra)
  | [], _ => fun _ he => absurd he List.not_mem_nil
  | e :: es, h => by
      rw [wellFormedExprs, Bool.and_eq_true] at h
      exact List.forall_mem_cons.2 ⟨spells_rendered e h.1, spells_renderedAll es h.2⟩

end

example (s : Text.Span) :
    (Expr.binary (.strict .sub) (.name "a" s)
      (.binary (.strict .sub) (.unary .plus (.name "b" s) s) (.name "c" s) s) s).rendered
        (fun _ => 0) =
      [.ident "a", .mark .minus, .mark .leftParen, .mark .plus, .ident "b", .mark .minus,
        .ident "c", .mark .rightParen] :=
  rfl

theorem spells_expr_rendered {e : Expr} (h : e.wellFormed = true) :
    Spells (.expr 0 e) (e.inPosition extra 0 (e.rendered extra)) :=
  spells_inPosition (spells_rendered e h) 0

theorem spellsDeclarator_rendered {d : Declarator} (h : d.value.all Expr.wellFormed = true) :
    SpellsDeclarator d (d.rendered extra) := by
  obtain ⟨name, _ | e⟩ := d
  · exact .bare name
  · exact .initial name (spells_expr_rendered h)

theorem spellsLocals_rendered {d : LocalDecl} (h : d.wellFormed = true) :
    SpellsLocals d (d.rendered extra) := by
  obtain ⟨type, ds⟩ := d
  rw [LocalDecl.wellFormed, Bool.and_eq_true, Bool.and_eq_true, List.all_eq_true] at h
  obtain ⟨⟨htype, hne⟩, hvalues⟩ := h
  have hds : Separated SpellsDeclarator ds (commas (ds.map (Declarator.rendered extra))) := by
    refine separated_commas (fun d hd => spellsDeclarator_rendered (hvalues d hd)) ?_
    rintro rfl
    cases hne
  cases type with
  | none => exact .var hds
  | some t => exact .typed (of_decide_eq_true htype) hds

theorem spellsOption_rendered {e : Option Expr} (h : e.all Expr.wellFormed = true) :
    SpellsOption e (renderedOption extra e) := by
  cases e with
  | none => exact .none
  | some e => exact .some (spells_expr_rendered h)

theorem spellsSteps_rendered {es : List Expr} (h : wellFormedExprs es = true) :
    SpellsSteps es (commas (renderedExprs extra es)) := by
  cases es with
  | nil => exact .none
  | cons e es => exact .some (spells_list_rendered (spells_renderedAll _ h) (List.cons_ne_nil _ _))

theorem spellsInit_rendered {i : ForInit} (h : i.wellFormed = true) :
    SpellsInit i (i.rendered extra) := by
  cases i with
  | nothing => exact .nothing
  | locals d => exact .locals (spellsLocals_rendered h)
  | exprs es =>
      rw [ForInit.wellFormed, Bool.and_eq_true] at h
      refine .exprs (spells_list_rendered (spells_renderedAll es h.2) ?_)
      rintro rfl
      cases h.1

mutual

theorem spellsStmt_rendered : ∀ (a : Stmt), a.wellFormed = true →
    SpellsBody (.stmt a) (a.rendered extra)
  | .block body span, h => by
      rw [Stmt.wellFormed] at h
      rw [Stmt.rendered]
      exact .block span (spellsStmts_rendered body h)
  | .empty span, _ => by
      rw [Stmt.rendered]
      exact .empty span
  | .locals d span, h => by
      rw [Stmt.wellFormed] at h
      rw [Stmt.rendered]
      exact .locals span (spellsLocals_rendered h)
  | .expr e span, h => by
      rw [Stmt.wellFormed] at h
      rw [Stmt.rendered]
      exact .expr span (spells_expr_rendered h)
  | .cond c yes none span, h => by
      rw [Stmt.wellFormed, Bool.and_eq_true] at h
      rw [Stmt.rendered]
      exact .cond span (spells_expr_rendered h.1) (spellsStmt_rendered yes h.2)
  | .cond c yes (some no) span, h => by
      rw [Stmt.wellFormed, Bool.and_eq_true, Bool.and_eq_true] at h
      rw [Stmt.rendered]
      exact .condElse span (spells_expr_rendered h.1.1) (spellsStmt_rendered yes h.1.2)
        (spellsStmt_rendered no h.2)
  | .loop c body span, h => by
      rw [Stmt.wellFormed, Bool.and_eq_true] at h
      rw [Stmt.rendered]
      exact .loop span (spells_expr_rendered h.1) (spellsStmt_rendered body h.2)
  | .doLoop body c span, h => by
      rw [Stmt.wellFormed, Bool.and_eq_true] at h
      rw [Stmt.rendered]
      exact .doLoop span (spellsStmt_rendered body h.1) (spells_expr_rendered h.2)
  | .forLoop i c steps body span, h => by
      rw [Stmt.wellFormed, Bool.and_eq_true, Bool.and_eq_true, Bool.and_eq_true] at h
      obtain ⟨⟨⟨hi, hc⟩, hsteps⟩, hbody⟩ := h
      rw [Stmt.rendered]
      exact .forLoop span (spellsInit_rendered hi) (spellsOption_rendered hc)
        (spellsSteps_rendered hsteps) (spellsStmt_rendered body hbody)
  | .ret e span, h => by
      rw [Stmt.wellFormed] at h
      rw [Stmt.rendered]
      exact .ret span (spellsOption_rendered h)
  | .throw e span, h => by
      rw [Stmt.wellFormed] at h
      rw [Stmt.rendered]
      exact .throw span (spells_expr_rendered h)
  | .leave span, _ => by
      rw [Stmt.rendered]
      exact .leave span
  | .next span, _ => by
      rw [Stmt.rendered]
      exact .next span

theorem spellsStmts_rendered : ∀ (as : List Stmt), wellFormedStmts as = true →
    SpellsBody (.stmts as) (renderedStmts extra as)
  | [], _ => by
      rw [renderedStmts]
      exact .nil
  | a :: as, h => by
      rw [wellFormedStmts, Bool.and_eq_true] at h
      rw [renderedStmts]
      exact .cons (spellsStmt_rendered a h.1) (spellsStmts_rendered as h.2)

end

end

end Scriptlet.Grammar
