import Scriptlet.Proofs.Parser.Bare
import Scriptlet.Proofs.Parser.Lists
import Scriptlet.Proofs.Parser.Words

namespace Scriptlet.Parser

/-!
# The expression parser reads what is spelled

An expression is read in a position once the token behind it does not continue it there. An operand
of postfix operators, and the left operand of binary ones, are read by a loop that goes on behind
them, so of these it is said where the loop stands then. The depth of recursion is bounded by the
number of tokens.
-/

open Grammar (Phrase Spells)
open Scriptlet.Tree (Expr TypeRef Ident assignMark? stepMark)

/-- The tokens with which an operand can go on. -/
def isPostfix : TokenKind → Bool
  | .mark .dot | .mark .leftParen | .mark .leftBracket | .mark .plusPlus | .mark .minusMinus => true
  | _ => false

/-- The token does not continue a conditional. -/
structure EndsConditional (k : TokenKind) : Prop where
  operand : isPostfix k = false
  operator : operator? k = none
  question : k ≠ .mark .question

/-- The token does not continue an expression. -/
structure EndsExpr (k : TokenKind) : Prop extends EndsConditional k where
  assignment : assignment? k = none

theorem endsExpr_mark {m : Mark}
    (h : m ∈ [Mark.semicolon, .comma, .rightParen, .rightBracket, .colon]) :
    EndsExpr (.mark m) := by
  simp only [List.mem_cons, List.not_mem_nil, or_false] at h
  obtain rfl | rfl | rfl | rfl | rfl := h
  all_goals exact ⟨⟨rfl, rfl, by decide⟩, rfl⟩

theorem endsConditional_assignment {op : Option BinaryOp} {m : Mark} (h : assignMark? op = some m) :
    EndsConditional (.mark m) := by
  rcases op with _ | op
  · cases h
    exact ⟨rfl, rfl, by decide⟩
  · cases op <;> cases h <;> exact ⟨rfl, rfl, by decide⟩

theorem isPostfix_operator (op : Tree.Operator) : isPostfix (.mark op.mark) = false := by
  rcases op with _ | _ | op
  · rfl
  · rfl
  · cases op <;> rfl

/-- The tokens with which an expression can begin. -/
def opensExpr : TokenKind → Bool
  | .int _ _ | .real _ _ | .string _ | .char _ | .ident _ => true
  | .keyword k => k.isTypeName || k == .kwTrue || k == .kwFalse || k == .kwNull || k == .kwNew
  | .mark m => m == .leftParen || m == .plus || m == .minus || m == .bang || m == .tilde ||
      m == .plusPlus || m == .minusMinus
  | .eof => false

/-- The tokens begin like an expression; a type stands in front of a point. -/
def Opens (ts : List TokenKind) : Prop :=
  ∃ k us, ts = k :: us ∧ opensExpr k = true ∧
    ((basicType? k).isSome = true → ∃ vs, us = .mark .dot :: vs)

theorem Opens.append {ts : List TokenKind} (h : Opens ts) (us : List TokenKind) :
    Opens (ts ++ us) := by
  obtain ⟨k, rest, rfl, hk, hdot⟩ := h
  refine ⟨k, rest ++ us, rfl, hk, fun hbasic => ?_⟩
  obtain ⟨vs, rfl⟩ := hdot hbasic
  exact ⟨vs ++ us, rfl⟩

theorem Opens.length_pos {ts : List TokenKind} (h : Opens ts) : 0 < ts.length := by
  obtain ⟨k, us, rfl, -⟩ := h
  exact Nat.succ_pos _

theorem opens_of {k : TokenKind} {us : List TokenKind} (hk : opensExpr k = true)
    (hbasic : basicType? k = none) : Opens (k :: us) := by
  refine ⟨k, us, rfl, hk, fun hsome => ?_⟩
  rw [hbasic] at hsome
  cases hsome

theorem map_bare_eq {is js : List Ident} (h : is.map Ident.name = js.map Ident.name) :
    is.map Ident.bare = js.map Ident.bare := by
  have hbare : Ident.bare = (⟨·, Tree.noSpan⟩) ∘ Ident.name := rfl
  rw [hbare, ← List.map_map, ← List.map_map, h]

/-- A type is read from its spelling. -/
theorem exists_reads_typeRef {t : TypeRef} {s s' : State} (ht : t.Proper)
    (h : Took t.spelling s s') (hdot : s'.kind ≠ .mark .dot) :
    ∃ t', t'.bare = t.bare ∧ Reads typeRef s t' s' := by
  obtain ⟨shape, tspan⟩ := t
  unfold typeRef
  cases shape with
  | void =>
      obtain ⟨hk, h⟩ := Took.cut h
      obtain rfl := h.eq_of_nil
      refine ⟨⟨.void, s.span⟩, rfl, Reads.get_bind ?_⟩
      rw [hk.kind_eq]
      exact Reads.advance_bind (reads_pure_iff.2 ⟨rfl, rfl⟩)
  | basic b =>
      obtain ⟨hk, h⟩ := Took.cut h
      obtain rfl := h.eq_of_nil
      refine ⟨⟨.basic b, s.span⟩, rfl, Reads.get_bind ?_⟩
      rw [hk.kind_eq]
      cases b <;> exact Reads.advance_bind (reads_pure_iff.2 ⟨rfl, rfl⟩)
  | named path =>
      cases path with
      | nil => exact absurd rfl ht
      | cons i path =>
          obtain ⟨hk, h⟩ := Took.cut h
          obtain ⟨hread, hnames⟩ := exists_pathTail h hdot
          refine ⟨⟨.named (⟨i.name, s.span⟩ :: pathTail s.advance.rest),
            s.span.merge s'.lastSpan⟩, ?_, Reads.get_bind ?_⟩
          · simp only [TypeRef.bare, Tree.TypeShape.bare, List.map_cons, map_bare_eq hnames]
            rfl
          · rw [hk.kind_eq]
            refine Reads.advance_bind (Reads.get_bind ?_)
            exact hread.bind (reads_spanned_iff.2 ⟨rfl, rfl⟩)

/-- An operand of postfix operators: the loop over these operators is behind it. -/
def AtPostfix (e : Expr) (ts : List TokenKind) : Prop :=
  ∀ ⦃n s s'⦄, 8 * ts.length ≤ n + 3 → Took ts s s' →
    ∃ n' e', n ≤ n' + ts.length ∧ e'.bare = e.bare ∧
      ∀ r t, Reads (postfixTail n' e') s' r t → Reads (unary n) s r t

def AtUnary (e : Expr) (ts : List TokenKind) : Prop :=
  ∀ ⦃n s s'⦄, 8 * ts.length ≤ n + 3 → Took ts s s' → isPostfix s'.kind = false →
    ∃ e', e'.bare = e.bare ∧ Reads (unary n) s e' s'

/-- A left operand of operators that bind no tighter than the level: the loop over operators is
behind it. -/
def AtBinary (level : Nat) (e : Expr) (ts : List TokenKind) : Prop :=
  ∀ ⦃n j s s'⦄, j ≤ level → 8 * ts.length ≤ n + 2 → Took ts s s' → isPostfix s'.kind = false →
    (∀ op, operator? s'.kind = some op → op.level ≤ level) →
    ∃ n' e', n ≤ n' + ts.length ∧ e'.bare = e.bare ∧
      ∀ r t, Reads (binaryTail n' j e') s' r t → Reads (binary n j) s r t

def AtConditional (e : Expr) (ts : List TokenKind) : Prop :=
  ∀ ⦃n s s'⦄, 8 * ts.length ≤ n + 1 → Took ts s s' → EndsConditional s'.kind →
    ∃ e', e'.bare = e.bare ∧ Reads (conditional n) s e' s'

def AtExpr (e : Expr) (ts : List TokenKind) : Prop :=
  ∀ ⦃n s s'⦄, 8 * ts.length ≤ n → Took ts s s' → EndsExpr s'.kind →
    ∃ e', e'.bare = e.bare ∧ Reads (expr n) s e' s'

structure AtList (es : List Expr) (ts : List TokenKind) : Prop where
  opens : Opens ts
  reads : ∀ {n s s'}, 8 * ts.length + 1 ≤ n → Took ts s s' → EndsExpr s'.kind →
    s'.kind ≠ .mark .comma → ∃ es', es'.map Expr.bare = es.map Expr.bare ∧ Reads (exprs n) s es' s'

structure AtArgs (es : List Expr) (ts : List TokenKind) : Prop where
  opens : ∃ us, ts = .mark .leftParen :: us
  reads : ∀ {n s s'}, 8 * ts.length ≤ n + 3 → Took ts s s' →
    ∃ es', es'.map Expr.bare = es.map Expr.bare ∧ Reads (arguments n) s es' s'

/-- What is spelled in a position is read in it and in all looser ones. -/
structure AtPosition (p : Nat) (e : Expr) (ts : List TokenKind) : Prop where
  opens : Opens ts
  expr : AtExpr e ts
  conditional : 1 ≤ p → AtConditional e ts
  binary : ∀ level, level + 2 ≤ p → AtBinary level e ts
  unary : 12 ≤ p → AtUnary e ts
  operand : 13 ≤ p → AtPostfix e ts

section

variable {p level n : Nat} {e : Expr} {ts : List TokenKind} {s s' t : State}

theorem reads_postfixTail_end (h : isPostfix s.kind = false) :
    Reads (postfixTail (n + 1) e) s e s := by
  rw [postfixTail]
  refine Reads.get_bind ?_
  split
  iterate 5
    next hk =>
      rw [hk] at h
      cases h
  exact reads_pure_iff.2 ⟨rfl, rfl⟩

theorem reads_binaryTail_end (h : ∀ op, operator? s.kind = some op → op.level < level) :
    Reads (binaryTail (n + 1) level e) s e s := by
  rw [binaryTail]
  refine Reads.get_bind ?_
  split
  · exact reads_pure_iff.2 ⟨rfl, rfl⟩
  · next op hop =>
      rw [if_neg (Nat.not_le.2 (h op hop))]
      exact reads_pure_iff.2 ⟨rfl, rfl⟩

theorem AtPostfix.unary (h : AtPostfix e ts) (hpos : 0 < ts.length) : AtUnary e ts := by
  intro n s s' hn htook hend
  obtain ⟨n', e', hn', hbare, hread⟩ := h hn htook
  obtain ⟨m, rfl⟩ : ∃ m, n' = m + 1 := Nat.exists_eq_add_of_le' (by omega)
  exact ⟨e', hbare, hread _ _ (reads_postfixTail_end hend)⟩

theorem AtUnary.binary (h : AtUnary e ts) (hpos : 0 < ts.length) (level : Nat) :
    AtBinary level e ts := by
  intro n j s s' hj hn htook hend _
  obtain ⟨m, rfl⟩ : ∃ m, n = m + 1 := Nat.exists_eq_add_of_le' (by omega)
  obtain ⟨e', hbare, hread⟩ := h (n := m) (by omega) htook hend
  refine ⟨m, e', by omega, hbare, fun r t htail => ?_⟩
  rw [Parser.binary]
  exact hread.bind htail

theorem AtBinary.mono {level' : Nat} (h : AtBinary level e ts) (hle : level' ≤ level) :
    AtBinary level' e ts :=
  fun _ _ _ _ hj hn htook hend hop =>
    h (Nat.le_trans hj hle) hn htook hend fun op hsome => Nat.le_trans (hop op hsome) hle

/-- The whole of what the loop over operators reads. -/
theorem AtBinary.reads (h : AtBinary level e ts) (hpos : 0 < ts.length)
    (hn : 8 * ts.length ≤ n + 2) (htook : Took ts s s') (hend : isPostfix s'.kind = false)
    (hop : ∀ op, operator? s'.kind = some op → op.level < level) :
    ∃ e', e'.bare = e.bare ∧ Reads (Parser.binary n level) s e' s' := by
  obtain ⟨n', e', hn', hbare, hread⟩ :=
    h (Nat.le_refl level) hn htook hend fun op hsome => Nat.le_of_lt (hop op hsome)
  obtain ⟨m, rfl⟩ : ∃ m, n' = m + 1 := Nat.exists_eq_add_of_le' (by omega)
  exact ⟨e', hbare, hread _ _ (reads_binaryTail_end hop)⟩

theorem AtBinary.conditional (h : AtBinary 0 e ts) (hpos : 0 < ts.length) :
    AtConditional e ts := by
  intro n s s' hn htook hend
  obtain ⟨m, rfl⟩ : ∃ m, n = m + 1 := Nat.exists_eq_add_of_le' (by omega)
  have hop : ∀ op, operator? s'.kind = some op → op.level < 0 := by
    intro op hsome
    rw [hend.operator] at hsome
    cases hsome
  obtain ⟨e', hbare, hread⟩ := h.reads (n := m) hpos (by omega) htook hend.operand hop
  refine ⟨e', hbare, ?_⟩
  rw [Parser.conditional]
  refine hread.bind (Reads.bind (reads_accept_iff.2 (.inr ⟨rfl, hend.question, rfl⟩)) ?_)
  exact reads_pure_iff.2 ⟨rfl, rfl⟩

theorem AtConditional.expr (h : AtConditional e ts) (hpos : 0 < ts.length) : AtExpr e ts := by
  intro n s s' hn htook hend
  obtain ⟨m, rfl⟩ : ∃ m, n = m + 1 := Nat.exists_eq_add_of_le' (by omega)
  obtain ⟨e', hbare, hread⟩ := h (n := m) (by omega) htook hend.toEndsConditional
  refine ⟨e', hbare, ?_⟩
  rw [Parser.expr]
  refine hread.bind (Reads.get_bind ?_)
  rw [hend.assignment]
  exact reads_pure_iff.2 ⟨rfl, rfl⟩

/-! A part that is read in a position is read in all looser ones. -/

theorem AtExpr.atPosition (h : AtExpr e ts) (hopens : Opens ts) : AtPosition 0 e ts where
  opens := hopens
  expr := h
  conditional hp := absurd hp (by omega)
  binary level hp := absurd hp (by omega)
  unary hp := absurd hp (by omega)
  operand hp := absurd hp (by omega)

theorem AtConditional.atPosition (h : AtConditional e ts) (hopens : Opens ts) (hp : p ≤ 1) :
    AtPosition p e ts where
  opens := hopens
  expr := h.expr hopens.length_pos
  conditional _ := h
  binary level hlevel := absurd hlevel (by omega)
  unary hp' := absurd hp' (by omega)
  operand hp' := absurd hp' (by omega)

theorem AtBinary.atPosition (h : AtBinary level e ts) (hopens : Opens ts) (hlevel : level ≤ 9)
    (hp : p ≤ level + 2) : AtPosition p e ts where
  opens := hopens
  expr := ((h.mono (Nat.zero_le _)).conditional hopens.length_pos).expr hopens.length_pos
  conditional _ := (h.mono (Nat.zero_le _)).conditional hopens.length_pos
  binary level' hlevel' := h.mono (by omega)
  unary hp' := absurd hp' (by omega)
  operand hp' := absurd hp' (by omega)

theorem AtUnary.atPosition (h : AtUnary e ts) (hopens : Opens ts) (hp : p ≤ 12) :
    AtPosition p e ts where
  opens := hopens
  expr := ((h.binary hopens.length_pos 0).conditional hopens.length_pos).expr hopens.length_pos
  conditional _ := (h.binary hopens.length_pos 0).conditional hopens.length_pos
  binary level _ := h.binary hopens.length_pos level
  unary _ := h
  operand hp' := absurd hp' (by omega)

theorem AtPostfix.atPosition (h : AtPostfix e ts) (hopens : Opens ts) (p : Nat) :
    AtPosition p e ts :=
  have hunary := (h.unary hopens.length_pos).atPosition hopens (Nat.le_refl 12)
  ⟨hopens, hunary.expr, fun _ => hunary.conditional (by decide),
    fun level _ => (h.unary hopens.length_pos).binary hopens.length_pos level,
    fun _ => hunary.unary (Nat.le_refl 12), fun _ => h⟩

/-! What each form of expression is read by. -/

theorem atCast_eq_false (h : s.kind ≠ .mark .leftParen) : s.atCast = false := by
  refine Bool.eq_false_iff.2 fun hcast => ?_
  obtain ⟨_, hleft, -⟩ := atCast_iff.1 hcast
  exact h hleft

theorem reads_unary_of_primary {r : Expr} {t' : State} (hsign : sign? s.kind = none)
    (hstep : step? s.kind = none) (hcast : s.atCast = false) (hprimary : Reads (primary n) s e t)
    (htail : Reads (postfixTail n e) t r t') : Reads (unary (n + 1)) s r t' := by
  rw [Parser.unary]
  refine Reads.get_bind ?_
  rw [hsign, hstep]
  dsimp only
  rw [hcast, if_neg Bool.false_ne_true]
  exact hprimary.bind htail

theorem reads_primary_of_atom (hparen : s.kind ≠ .mark .leftParen)
    (hnew : s.kind ≠ .keyword .kwNew) (hatom : Reads atom s e t) :
    Reads (primary (n + 1)) s e t := by
  rw [Parser.primary]
  refine Reads.get_bind ?_
  split
  · next hk => exact absurd hk hparen
  · next hk => exact absurd hk hnew
  · exact hatom

theorem atPostfix_of_primary (hpos : 0 < ts.length)
    (hstart : ∀ {s s'}, Took ts s s' →
      sign? s.kind = none ∧ step? s.kind = none ∧ s.atCast = false)
    (hread : ∀ {n s s'}, 8 * ts.length ≤ n + 4 → Took ts s s' →
      ∃ e', e'.bare = e.bare ∧ Reads (primary n) s e' s') : AtPostfix e ts := by
  intro n s s' hn htook
  obtain ⟨m, rfl⟩ : ∃ m, n = m + 1 := Nat.exists_eq_add_of_le' (by omega)
  obtain ⟨hsign, hstep, hcast⟩ := hstart htook
  obtain ⟨e', hbare, hprimary⟩ := hread (n := m) (by omega) htook
  exact ⟨m, e', by omega, hbare, fun r t => reads_unary_of_primary hsign hstep hcast hprimary⟩

/-- An operand of a single token. -/
theorem atPostfix_atom {k : TokenKind} (hsign : sign? k = none) (hstep : step? k = none)
    (hparen : k ≠ .mark .leftParen) (hnew : k ≠ .keyword .kwNew) (make : Text.Span → Expr)
    (hbare : ∀ span, (make span).bare = e.bare)
    (hatom : ∀ {s : State}, s.kind = k → Reads atom s (make s.span) s.advance) :
    AtPostfix e [k] := by
  refine atPostfix_of_primary Nat.one_pos (fun htook => ?_) fun {n s s'} hn htook => ?_
  · rw [htook.kind_eq]
    exact ⟨hsign, hstep, atCast_eq_false (htook.kind_eq ▸ hparen)⟩
  · rw [List.length_singleton] at hn
    obtain ⟨m, rfl⟩ : ∃ m, n = m + 1 := Nat.exists_eq_add_of_le' (by omega)
    have hk := htook.kind_eq
    obtain rfl := htook.cut.2.eq_of_nil
    exact ⟨make s.span, hbare s.span,
      reads_primary_of_atom (hk ▸ hparen) (hk ▸ hnew) (hatom hk)⟩

theorem atPostfix_literal (l : Tree.Literal) (span : Text.Span) :
    AtPostfix (.literal l span) [l.token] := by
  have hatom {s : State} (hk : s.kind = l.token) : Reads atom s (.literal l s.span) s.advance := by
    unfold atom
    refine Reads.get_bind ?_
    rw [literal?_eq_some_iff.2 hk]
    exact Reads.advance_bind (reads_pure_iff.2 ⟨rfl, rfl⟩)
  rcases l with _ | _ | _ | _ | (_ | _) | _ <;>
    exact atPostfix_atom rfl rfl (by simp [Tree.Literal.token]) (by simp [Tree.Literal.token])
      (.literal _) (fun _ => rfl) hatom

theorem atPostfix_name (name : String) (span : Text.Span) :
    AtPostfix (.name name span) [.ident name] := by
  refine atPostfix_atom rfl rfl TokenKind.noConfusion TokenKind.noConfusion (.name name)
    (fun _ => rfl) fun {s} hk => ?_
  unfold atom
  refine Reads.get_bind ?_
  rw [hk]
  exact Reads.advance_bind (reads_pure_iff.2 ⟨rfl, rfl⟩)

/-- An operand goes on with what one turn of the loop reads. -/
theorem AtPostfix.extend {e₂ : Expr} {us : List TokenKind} (h : AtPostfix e ts)
    (hts : 0 < ts.length) (hus : 0 < us.length)
    (hturn : ∀ {m e' s s'}, e'.bare = e.bare → 8 * us.length ≤ m → Took us s s' →
      ∃ e₂', e₂'.bare = e₂.bare ∧
        ∀ r t, Reads (postfixTail m e₂') s' r t → Reads (postfixTail (m + 1) e') s r t) :
    AtPostfix e₂ (ts ++ us) := by
  intro n s s' hn htook
  rw [List.length_append] at hn ⊢
  obtain ⟨t, hhead, htail⟩ := htook.split
  obtain ⟨n', e', hn', hbare, hread⟩ := h (n := n) (by omega) hhead
  obtain ⟨m, rfl⟩ : ∃ m, n' = m + 1 := Nat.exists_eq_add_of_le' (by omega)
  obtain ⟨e₂', hbare₂, hloop⟩ := hturn (m := m) hbare (by omega) htail
  exact ⟨m, e₂', by omega, hbare₂, fun r t hr => hread r t (hloop r t hr)⟩

theorem exists_reads_member (e' : Expr) {name : Tree.Ident}
    (htook : Took [.mark .dot, .ident name.name] s s') :
    ∃ i : Tree.Ident, i.bare = name.bare ∧ ∀ r t,
      Reads (postfixTail n (.member e' i (e'.span.merge i.span))) s' r t →
      Reads (postfixTail (n + 1) e') s r t := by
  obtain ⟨hdot, htook⟩ := Took.cut htook
  refine ⟨⟨name.name, s.advance.span⟩, rfl, fun r t htail => ?_⟩
  rw [postfixTail]
  refine Reads.get_bind ?_
  rw [hdot.kind_eq]
  exact Reads.advance_bind (htook.reads_ident.bind htail)

theorem atPostfix_member (h : AtPostfix e ts) (hpos : 0 < ts.length) (name : Tree.Ident)
    (span : Text.Span) :
    AtPostfix (.member e name span) (ts ++ [.mark .dot, .ident name.name]) := by
  refine h.extend hpos (Nat.succ_pos _) fun {m e' s s'} hbare _ htook => ?_
  obtain ⟨i, hi, hread⟩ := exists_reads_member e' htook
  refine ⟨_, ?_, hread⟩
  rw [Expr.bare, Expr.bare, hbare, hi]

theorem atPostfix_memberOfType (b : BasicType) (tspan : Text.Span) (name : Tree.Ident)
    (span : Text.Span) :
    AtPostfix (.member (.type b tspan) name span)
      [.keyword b.word, .mark .dot, .ident name.name] := by
  intro n s s' hn htook
  have hlength : [TokenKind.keyword b.word, .mark .dot, .ident name.name].length = 3 := rfl
  rw [hlength] at hn ⊢
  obtain ⟨m, rfl⟩ : ∃ m, n = m + 3 := Nat.exists_eq_add_of_le' (by omega)
  obtain ⟨hk, htook⟩ := Took.cut htook
  have hb := basicType?_eq_some_iff.2 hk.kind_eq
  have hdot : s.ahead 1 = .mark .dot := by
    rw [ahead_succ (hk.kind_eq ▸ TokenKind.noConfusion)]
    exact htook.kind_eq
  obtain ⟨i, hi, hread⟩ := exists_reads_member (n := m + 1) (.type b s.span) htook
  have hatom : Reads atom s (.type b s.span) s.advance := by
    have hliteral : literal? s.kind = none := by
      rw [hk.kind_eq]
      cases b <;> rfl
    unfold atom
    refine Reads.get_bind ?_
    rw [hliteral, hk.kind_eq]
    rw [hk.kind_eq] at hb
    dsimp only
    rw [hb, hdot]
    exact Reads.advance_bind (reads_pure_iff.2 ⟨rfl, rfl⟩)
  refine ⟨m + 1, .member (.type b s.span) i (s.span.merge i.span), by omega, ?_,
    fun r t htail => ?_⟩
  · rw [Expr.bare, Expr.bare, hi]
    rfl
  · refine reads_unary_of_primary ?_ ?_ (atCast_eq_false (hk.kind_eq ▸ TokenKind.noConfusion))
      (reads_primary_of_atom (hk.kind_eq ▸ TokenKind.noConfusion) ?_ hatom) (hread r t htail)
    · rw [hk.kind_eq]
      rfl
    · rw [hk.kind_eq]
      rfl
    · rw [hk.kind_eq]
      cases b <;> exact fun h => by cases h

theorem atPostfix_call {es : List Expr} {us : List TokenKind} (h : AtPostfix e ts)
    (hpos : 0 < ts.length) (hes : AtArgs es us) (span : Text.Span) :
    AtPostfix (.call e es span) (ts ++ us) := by
  obtain ⟨us', rfl⟩ := hes.opens
  refine h.extend hpos (Nat.succ_pos _) fun {m e' s s'} hbare hm htook => ?_
  obtain ⟨es', hbares, hread⟩ := hes.reads (n := m) (by omega) htook
  refine ⟨.call e' es' (e'.span.merge s'.lastSpan), ?_, fun r t htail => ?_⟩
  · rw [Expr.bare, Expr.bare, hbare, Tree.bareExprs_eq_map, Tree.bareExprs_eq_map, hbares]
  · rw [postfixTail]
    refine Reads.get_bind ?_
    rw [htook.kind_eq]
    exact hread.bind ((reads_spanFrom_iff.2 ⟨rfl, rfl⟩).bind htail)

theorem atPostfix_index {i : Expr} {us : List TokenKind} (h : AtPostfix e ts)
    (hpos : 0 < ts.length) (hi : AtExpr i us) (span : Text.Span) :
    AtPostfix (.index e i span) (ts ++ .mark .leftBracket :: us ++ [.mark .rightBracket]) := by
  rw [List.append_assoc]
  refine h.extend hpos (Nat.succ_pos _) fun {m e' s s'} hbare hm htook => ?_
  rw [List.length_append, List.length_cons] at hm
  obtain ⟨hleft, htook⟩ := Took.cut htook
  obtain ⟨t, hindex, hright⟩ := htook.split
  have hend : EndsExpr t.kind := hright.kind_eq ▸ endsExpr_mark (by decide)
  obtain ⟨i', hbarei, hread⟩ := hi (n := m) (by omega) hindex hend
  refine ⟨.index e' i' (e'.span.merge s'.lastSpan), ?_, fun r t htail => ?_⟩
  · rw [Expr.bare, Expr.bare, hbare, hbarei]
  · rw [postfixTail]
    refine Reads.get_bind ?_
    rw [hleft.kind_eq]
    refine Reads.advance_bind (hread.bind ?_)
    exact hright.expect_bind ((reads_spanFrom_iff.2 ⟨rfl, rfl⟩).bind htail)

theorem atPostfix_step (h : AtPostfix e ts) (hpos : 0 < ts.length) (increment : Bool)
    (span : Text.Span) :
    AtPostfix (.step increment false e span) (ts ++ [.mark (stepMark increment)]) := by
  refine h.extend hpos (Nat.succ_pos _) fun {m e' s s'} hbare hm htook => ?_
  obtain ⟨hk, htook⟩ := Took.cut htook
  obtain rfl := htook.eq_of_nil
  refine ⟨.step increment false e' (e'.span.merge s.advance.lastSpan), ?_, fun r t htail => ?_⟩
  · rw [Expr.bare, Expr.bare, hbare]
  · rw [postfixTail]
    refine Reads.get_bind ?_
    rw [hk.kind_eq]
    cases increment <;>
      exact Reads.advance_bind ((reads_spanFrom_iff.2 ⟨rfl, rfl⟩).bind htail)

theorem atPostfix_new {t : TypeRef} {es : List Expr} {us : List TokenKind} (ht : t.Proper)
    (hes : AtArgs es us) (span : Text.Span) :
    AtPostfix (.new t es span) (.keyword .kwNew :: t.spelling ++ us) := by
  obtain ⟨us', rfl⟩ := hes.opens
  refine atPostfix_of_primary (Nat.succ_pos _) (fun htook => ?_) (fun {n s s'} hn htook => ?_)
  · obtain ⟨hk, -⟩ := Took.cut htook
    rw [hk.kind_eq]
    exact ⟨rfl, rfl, atCast_eq_false (hk.kind_eq ▸ TokenKind.noConfusion)⟩
  · rw [List.cons_append, List.length_cons, List.length_append] at hn
    obtain ⟨m, rfl⟩ : ∃ m, n = m + 1 := Nat.exists_eq_add_of_le' (by omega)
    obtain ⟨hk, htook⟩ := Took.cut htook
    obtain ⟨t₁, htype, hargs⟩ := htook.split
    have hdot : t₁.kind ≠ .mark .dot := by
      rw [hargs.kind_eq]
      decide
    obtain ⟨t', htbare, htread⟩ := exists_reads_typeRef ht htype hdot
    obtain ⟨es', hbares, hread⟩ := hes.reads (n := m) (by omega) hargs
    refine ⟨.new t' es' (s.span.merge s'.lastSpan), ?_, ?_⟩
    · rw [Expr.bare, Expr.bare, htbare, Tree.bareExprs_eq_map, Tree.bareExprs_eq_map, hbares]
    · rw [Parser.primary]
      refine Reads.get_bind ?_
      rw [hk.kind_eq]
      exact Reads.advance_bind (htread.bind (hread.bind (reads_spanned_iff.2 ⟨rfl, rfl⟩)))

theorem atCast_eq_false_of_opens {us : List TokenKind} (hopens : Opens ts)
    (htook : Took (.mark .leftParen :: ts ++ us) s s') : s.atCast = false := by
  refine Bool.eq_false_iff.2 fun hcast => ?_
  obtain ⟨b, -, hword, hright⟩ := atCast_iff.1 hcast
  obtain ⟨k, rest, rfl, -, hdot⟩ := hopens
  obtain ⟨-, htook⟩ := Took.cut htook
  obtain ⟨hk, htook⟩ := Took.cut htook
  have hk := hk.kind_eq.symm.trans hword
  obtain ⟨vs, rfl⟩ := hdot (Option.isSome_iff_exists.2 ⟨b, basicType?_eq_some_iff.2 hk⟩)
  cases (Took.kind_eq htook).symm.trans hright

theorem atPostfix_parens (h : AtExpr e ts) (hopens : Opens ts) :
    AtPostfix e (.mark .leftParen :: ts ++ [.mark .rightParen]) := by
  refine atPostfix_of_primary (Nat.succ_pos _) (fun htook => ?_) (fun {n s s'} hn htook => ?_)
  · have hcast := atCast_eq_false_of_opens hopens htook
    obtain ⟨hk, -⟩ := Took.cut htook
    rw [hk.kind_eq]
    exact ⟨rfl, rfl, hcast⟩
  · rw [List.cons_append, List.length_cons, List.length_append] at hn
    obtain ⟨m, rfl⟩ : ∃ m, n = m + 1 := Nat.exists_eq_add_of_le' (by omega)
    obtain ⟨hk, htook⟩ := Took.cut htook
    obtain ⟨t₁, hinner, hright⟩ := htook.split
    have hend : EndsExpr t₁.kind := hright.kind_eq ▸ endsExpr_mark (by decide)
    obtain ⟨e', hbare, hread⟩ := h (n := m) (by omega) hinner hend
    refine ⟨e', hbare, ?_⟩
    rw [Parser.primary]
    refine Reads.get_bind ?_
    rw [hk.kind_eq]
    refine Reads.advance_bind (hread.bind ?_)
    exact hright.expect_bind (reads_pure_iff.2 ⟨rfl, rfl⟩)

theorem atUnary_unary (h : AtUnary e ts) (sign : Tree.Sign) (span : Text.Span) :
    AtUnary (.unary sign e span) (.mark sign.mark :: ts) := by
  intro n s s' hn htook hend
  rw [List.length_cons] at hn
  obtain ⟨m, rfl⟩ : ∃ m, n = m + 1 := Nat.exists_eq_add_of_le' (by omega)
  obtain ⟨hk, htook⟩ := Took.cut htook
  obtain ⟨e', hbare, hread⟩ := h (n := m) (by omega) htook hend
  refine ⟨.unary sign e' (s.span.merge e'.span), ?_, ?_⟩
  · rw [Expr.bare, Expr.bare, hbare]
  · rw [Parser.unary]
    refine Reads.get_bind ?_
    rw [sign?_eq_some_iff.2 hk.kind_eq]
    exact Reads.advance_bind (hread.bind (reads_pure_iff.2 ⟨rfl, rfl⟩))

theorem atUnary_step (h : AtUnary e ts) (increment : Bool) (span : Text.Span) :
    AtUnary (.step increment true e span) (.mark (stepMark increment) :: ts) := by
  intro n s s' hn htook hend
  rw [List.length_cons] at hn
  obtain ⟨m, rfl⟩ : ∃ m, n = m + 1 := Nat.exists_eq_add_of_le' (by omega)
  obtain ⟨hk, htook⟩ := Took.cut htook
  obtain ⟨e', hbare, hread⟩ := h (n := m) (by omega) htook hend
  refine ⟨.step increment true e' (s.span.merge e'.span), ?_, ?_⟩
  · rw [Expr.bare, Expr.bare, hbare]
  · have hsign : sign? s.kind = none := by
      rw [hk.kind_eq]
      cases increment <;> rfl
    rw [Parser.unary]
    refine Reads.get_bind ?_
    rw [hsign, step?_eq_some_iff.2 hk.kind_eq]
    exact Reads.advance_bind (hread.bind (reads_pure_iff.2 ⟨rfl, rfl⟩))

theorem atUnary_cast (h : AtUnary e ts) (b : BasicType) (tspan span : Text.Span) :
    AtUnary (.cast ⟨.basic b, tspan⟩ e span)
      (.mark .leftParen :: .keyword b.word :: .mark .rightParen :: ts) := by
  intro n s s' hn htook hend
  rw [List.length_cons, List.length_cons, List.length_cons] at hn
  obtain ⟨m, rfl⟩ : ∃ m, n = m + 1 := Nat.exists_eq_add_of_le' (by omega)
  obtain ⟨hleft, htook⟩ := Took.cut htook
  cases htook with
  | cons hword hne htook =>
      obtain ⟨hright, htook⟩ := Took.cut htook
      obtain ⟨e', hbare, hread⟩ := h (n := m) (by omega) htook hend
      have htype : Took (TypeRef.spelling ⟨.basic b, tspan⟩) s.advance s.advance.advance :=
        .one hword hne
      obtain ⟨t', htbare, htread⟩ := exists_reads_typeRef Tree.TypeShape.noConfusion htype
        (hright.kind_eq ▸ fun h => by cases h)
      refine ⟨.cast t' e' (s.span.merge e'.span), ?_, ?_⟩
      · rw [Expr.bare, Expr.bare, hbare, htbare]
      · rw [Parser.unary]
        refine Reads.get_bind ?_
        have hcast : s.atCast = true := atCast_iff.2 ⟨b, hleft.kind_eq, hword, hright.kind_eq⟩
        rw [hleft.kind_eq]
        dsimp only [sign?, step?]
        rw [hcast, if_pos rfl]
        refine Reads.advance_bind (htread.bind ?_)
        refine Reads.bind (a := ()) (reads_expect_iff.2 hright) ?_
        exact hread.bind (reads_pure_iff.2 ⟨rfl, rfl⟩)

theorem atBinary_binary {l r : Expr} {us : List TokenKind} (op : Tree.Operator)
    (hl : AtBinary op.level l ts) (hlpos : 0 < ts.length) (hr : AtBinary (op.level + 1) r us)
    (hrpos : 0 < us.length) (span : Text.Span) :
    AtBinary op.level (.binary op l r span) (ts ++ .mark op.mark :: us) := by
  intro n j s s' hj hn htook hend hop
  rw [List.length_append, List.length_cons] at hn ⊢
  obtain ⟨t, hleft, htook⟩ := htook.split
  obtain ⟨hk, hright⟩ := Took.cut htook
  have hsome := operator?_eq_some_iff.2 hk.kind_eq
  obtain ⟨n', l', hn', hbarel, hread⟩ := hl (n := n) hj (by omega) hleft
    (hk.kind_eq ▸ isPostfix_operator op) fun op' hop' => by
      rw [hsome] at hop'
      cases hop'
      exact Nat.le_refl _
  obtain ⟨m, rfl⟩ : ∃ m, n' = m + 1 := Nat.exists_eq_add_of_le' (by omega)
  obtain ⟨r', hbarer, hreadr⟩ := hr.reads (n := m) hrpos (by omega) hright hend
    fun op' hop' => Nat.lt_succ_of_le (hop op' hop')
  refine ⟨m, .binary op l' r' (l'.span.merge r'.span), by omega, ?_, fun e t' htail => ?_⟩
  · rw [Expr.bare, Expr.bare, hbarel, hbarer]
  · refine hread e t' ?_
    rw [Parser.binaryTail]
    refine Reads.get_bind ?_
    rw [hsome]
    dsimp only
    rw [if_pos hj]
    exact Reads.advance_bind (hreadr.bind htail)

theorem atConditional_conditional {c y : Expr} {us vs : List TokenKind} (hc : AtBinary 0 c ts)
    (hpos : 0 < ts.length) (hy : AtExpr y us) (he : AtConditional e vs) (span : Text.Span) :
    AtConditional (.conditional c y e span)
      (ts ++ .mark .question :: us ++ .mark .colon :: vs) := by
  intro n s s' hn htook hend
  rw [List.length_append, List.length_append, List.length_cons, List.length_cons] at hn
  obtain ⟨m, rfl⟩ : ∃ m, n = m + 1 := Nat.exists_eq_add_of_le' (by omega)
  obtain ⟨t₂, hhead, htook⟩ := htook.split
  obtain ⟨t₁, hcond, hyes⟩ := hhead.split
  cases hyes with
  | cons hquestion hne hyes =>
      obtain ⟨hcolon, hno⟩ := Took.cut htook
      obtain ⟨c', hbarec, hreadc⟩ := hc.reads (n := m) hpos (by omega) hcond
        (hquestion ▸ rfl) fun op hop => by
          rw [hquestion] at hop
          cases hop
      obtain ⟨y', hbarey, hready⟩ := hy (n := m) (by omega) hyes
        (hcolon.kind_eq ▸ endsExpr_mark (by decide))
      obtain ⟨e', hbare, hread⟩ := he (n := m) (by omega) hno hend
      refine ⟨.conditional c' y' e' (c'.span.merge e'.span), ?_, ?_⟩
      · rw [Expr.bare, Expr.bare, hbarec, hbarey, hbare]
      · rw [Parser.conditional]
        refine hreadc.bind (Reads.bind (reads_accept_iff.2 (.inl ⟨rfl, .one hquestion hne⟩)) ?_)
        rw [if_pos rfl]
        refine hready.bind (Reads.bind (a := ()) (reads_expect_iff.2 hcolon) ?_)
        exact hread.bind (reads_pure_iff.2 ⟨rfl, rfl⟩)

theorem atExpr_assign {target : Expr} {us : List TokenKind} {op : Option BinaryOp} {m : Mark}
    (hm : assignMark? op = some m) (htarget : AtConditional target ts) (he : AtExpr e us)
    (span : Text.Span) : AtExpr (.assign op target e span) (ts ++ .mark m :: us) := by
  intro n s s' hn htook hend
  rw [List.length_append, List.length_cons] at hn
  obtain ⟨k, rfl⟩ : ∃ k, n = k + 1 := Nat.exists_eq_add_of_le' (by omega)
  obtain ⟨t₁, hleft, htook⟩ := htook.split
  obtain ⟨hk, hvalue⟩ := Took.cut htook
  obtain ⟨target', hbaret, hreadt⟩ := htarget (n := k) (by omega) hleft
    (hk.kind_eq ▸ endsConditional_assignment hm)
  obtain ⟨e', hbare, hread⟩ := he (n := k) (by omega) hvalue hend
  refine ⟨.assign op target' e' (target'.span.merge e'.span), ?_, ?_⟩
  · rw [Expr.bare, Expr.bare, hbaret, hbare]
  · rw [Parser.expr]
    refine hreadt.bind (Reads.get_bind ?_)
    rw [assignment?_eq_some_iff.2 ⟨m, hm, hk.kind_eq⟩]
    exact Reads.advance_bind (hread.bind (reads_pure_iff.2 ⟨rfl, rfl⟩))

theorem opensExpr_of_took (hopens : Opens ts) (htook : Took ts s s') :
    opensExpr s.kind = true := by
  obtain ⟨k, us, rfl, hk, -⟩ := hopens
  cases htook with
  | cons hkind _ _ => exact hkind ▸ hk

theorem not_atMark_of_opens {m : Mark} (hopens : Opens ts) (htook : Took ts s s')
    (hm : opensExpr (.mark m) = false) : s.atMark m ≠ true := by
  intro hmark
  have hopen := opensExpr_of_took hopens htook
  rw [atMark_iff.1 hmark, hm] at hopen
  cases hopen

theorem atList_one (h : AtExpr e ts) (hopens : Opens ts) : AtList [e] ts where
  opens := hopens
  reads {n s s'} hn htook hend hcomma := by
    obtain ⟨m, rfl⟩ : ∃ m, n = m + 1 := Nat.exists_eq_add_of_le' (by omega)
    obtain ⟨e', hbare, hread⟩ := h (n := m) (by omega) htook hend
    refine ⟨[e'], congrArg ([·]) hbare, ?_⟩
    rw [Parser.exprs]
    exact reads_commas_iff.2 (.inr ⟨e', rfl, hread, hcomma⟩)

theorem atList_more {es : List Expr} {us : List TokenKind} (h : AtExpr e ts) (hopens : Opens ts)
    (hes : AtList es us) : AtList (e :: es) (ts ++ .mark .comma :: us) where
  opens := hopens.append _
  reads {n s s'} hn htook hend hcomma := by
    rw [List.length_append, List.length_cons] at hn
    obtain ⟨m, rfl⟩ : ∃ m, n = m + 1 := Nat.exists_eq_add_of_le' (by omega)
    obtain ⟨t₁, hfirst, htook⟩ := htook.split
    obtain ⟨hk, hothers⟩ := htook.cut
    obtain ⟨e', hbare, hread⟩ := h (n := m) (by omega) hfirst
      (hk.kind_eq ▸ endsExpr_mark (by decide))
    obtain ⟨es', hbares, hreads⟩ := hes.reads (n := m) (by omega) hothers hend hcomma
    refine ⟨e' :: es', by rw [List.map_cons, List.map_cons, hbare, hbares], ?_⟩
    rw [Parser.exprs]
    exact reads_commas_iff.2 (.inl ⟨e', es', _, _, rfl, hread, hk, hreads⟩)

theorem atArgs_nil : AtArgs [] [.mark .leftParen, .mark .rightParen] where
  opens := ⟨_, rfl⟩
  reads {n s s'} hn htook := by
    have hlength : [TokenKind.mark .leftParen, .mark .rightParen].length = 2 := rfl
    rw [hlength] at hn
    obtain ⟨m, rfl⟩ : ∃ m, n = m + 1 := Nat.exists_eq_add_of_le' (by omega)
    obtain ⟨hleft, hright⟩ := Took.cut htook
    have hmark : s.advance.atMark .rightParen = true := atMark_iff.2 hright.kind_eq
    refine ⟨[], rfl, ?_⟩
    rw [Parser.arguments]
    refine Took.expect_bind hleft ?_
    refine Reads.bind (reads_atMark_iff.2 ⟨rfl, rfl⟩) ?_
    rw [if_pos hmark]
    exact Reads.bind (reads_pure_iff.2 ⟨rfl, rfl⟩)
      (hright.expect_bind (reads_pure_iff.2 ⟨rfl, rfl⟩))

theorem atArgs_list {es : List Expr} (hes : AtList es ts) :
    AtArgs es (.mark .leftParen :: ts ++ [.mark .rightParen]) where
  opens := ⟨_, rfl⟩
  reads {n s s'} hn htook := by
    rw [List.cons_append, List.length_cons, List.length_append] at hn
    obtain ⟨m, rfl⟩ : ∃ m, n = m + 1 := Nat.exists_eq_add_of_le' (by omega)
    obtain ⟨hleft, htook⟩ := Took.cut htook
    obtain ⟨t₁, hlist, hright⟩ := htook.split
    have hk := hright.kind_eq
    obtain ⟨es', hbares, hread⟩ := hes.reads (n := m) (by omega) hlist
      (hk ▸ endsExpr_mark (by decide)) (hk ▸ fun h => by cases h)
    refine ⟨es', hbares, ?_⟩
    rw [Parser.arguments]
    refine Took.expect_bind hleft ?_
    refine Reads.bind (reads_atMark_iff.2 ⟨rfl, rfl⟩) ?_
    rw [if_neg (not_atMark_of_opens hes.opens hlist rfl)]
    exact hread.bind
      (hright.expect_bind (reads_pure_iff.2 ⟨rfl, rfl⟩))

end

/-- What is read of a phrase. -/
def ReadBack : Phrase → List TokenKind → Prop
  | .expr p e, ts => AtPosition p e ts
  | .list es, ts => AtList es ts
  | .args es, ts => AtArgs es ts

/-- Every spelling is read back. -/
theorem readBack_of_spells {phrase : Phrase} {ts : List TokenKind} (h : Spells phrase ts) :
    ReadBack phrase ts := by
  induction h with
  | literal l span hp =>
      refine (atPostfix_literal l span).atPosition ?_ _
      rcases l with _ | _ | _ | _ | (_ | _) | _ <;> exact opens_of rfl rfl
  | name name span hp => exact (atPostfix_name name span).atPosition (opens_of rfl rfl) _
  | memberOfType b tspan name span hp =>
      refine (atPostfix_memberOfType b tspan name span).atPosition ?_ _
      exact ⟨_, _, rfl, by cases b <;> rfl, fun _ => ⟨_, rfl⟩⟩
  | member name span hp he ih =>
      exact (atPostfix_member (ih.operand (Nat.le_refl _)) ih.opens.length_pos name span).atPosition
        (ih.opens.append _) _
  | call span hp he hes ih ihs =>
      exact (atPostfix_call (ih.operand (Nat.le_refl _)) ih.opens.length_pos ihs span).atPosition
        (ih.opens.append _) _
  | index span hp he hi ih ihi =>
      exact (atPostfix_index (ih.operand (Nat.le_refl _)) ih.opens.length_pos ihi.expr
        span).atPosition ((ih.opens.append _).append _) _
  | postfixStep increment span hp he ih =>
      exact (atPostfix_step (ih.operand (Nat.le_refl _)) ih.opens.length_pos increment
        span).atPosition (ih.opens.append _) _
  | new t span hp ht hes ihs =>
      exact (atPostfix_new ht ihs span).atPosition (opens_of rfl rfl) _
  | unary sign span hp he ih =>
      refine (atUnary_unary (ih.unary (Nat.le_refl _)) sign span).atPosition ?_ hp
      rcases sign with _ | _ | _ | _ <;> exact opens_of rfl rfl
  | prefixStep increment span hp he ih =>
      refine (atUnary_step (ih.unary (Nat.le_refl _)) increment span).atPosition ?_ hp
      cases increment <;> exact opens_of rfl rfl
  | cast t tspan span hp he ih =>
      exact (atUnary_cast (ih.unary (Nat.le_refl _)) t tspan span).atPosition (opens_of rfl rfl) hp
  | binary op span hp hl hr ihl ihr =>
      exact (atBinary_binary op (ihl.binary _ (Nat.le_refl _)) ihl.opens.length_pos
        (ihr.binary _ (Nat.le_refl _)) ihr.opens.length_pos span).atPosition
        (ihl.opens.append _) op.level_le hp
  | conditional span hp hc hy hn ihc ihy ihn =>
      exact (atConditional_conditional (ihc.binary 0 (Nat.le_refl _)) ihc.opens.length_pos ihy.expr
        (ihn.conditional (Nat.le_refl _)) span).atPosition ((ihc.opens.append _).append _) hp
  | assign op span hm ht hv iht ihv =>
      exact (atExpr_assign hm (iht.conditional (Nat.le_refl _)) ihv.expr span).atPosition
        (iht.opens.append _)
  | parens p he ih => exact (atPostfix_parens ih.expr ih.opens).atPosition (opens_of rfl rfl) p
  | one he ih => exact atList_one ih.expr ih.opens
  | more he hes ih ihs => exact atList_more ih.expr ih.opens ihs
  | noArgs => exact atArgs_nil
  | someArgs hes ihs => exact atArgs_list ihs

end Scriptlet.Parser
