import Scriptlet.Proofs.Parser.Compound

namespace Scriptlet.Parser

/-!
# Progress

What each production comes to, if the productions that it goes on with come to it. They are of a lower
level or begin behind a token, and the bound on the depth of recursion leaves room for all of them: so
a larger bound changes nothing.
-/

namespace Production

/-- A production that has read nothing goes on with productions of lower levels. -/
def level : Production → Nat
  | .stmts => 7
  | .stmt | .exprs => 6
  | .expr => 5
  | .conditional => 4
  | .binary _ => 3
  | .unary => 2
  | .primary | .postfixTail _ => 1
  | _ => 0

/-- What a production passes is in balance, unless it looks for the next class. -/
def Keeps (enough : Prop) : Production → Prop
  | .classes => False
  | _ => enough

/-- Where a production leaves off. -/
def Leaves (s t : State) : Production → Prop
  | .binaryTail _ _ | .postfixTail _ | .importPath => True
  | .stmts | .methods => t.atClose = true
  | .imports => (!t.atKeyword .kwUsing) = true
  | .classes => t.atEnd = true
  | _ => t.rest.length < s.rest.length

/-- The productions that go on behind an error. -/
def Recovers : Production → Prop
  | .stmts | .methods | .imports | .classes => True
  | _ => False

end Production

/-- A production comes to the same in two families, and leaves off where it should. -/
structure Meets (enough : Prop) (f g : Productions) (p : Production) (s : State) : Prop where
  outcome : Outcome (p.Keeps enough) enough (f p) (g p) s fun _ t => p.Leaves s t
  total : p.Recovers → Total (f p) s

/-- What a production goes on with: one of a lower level, or any one behind a token. -/
structure Below (enough : Prop) (f g : Productions) (p : Production) (s : State) : Prop where
  lower : ∀ q, q.level < p.level → Meets enough f g q s
  later : ∀ q t, t.rest.length < s.rest.length → Meets enough f g q t

theorem plain_of_eq_some {β : Type} {read : TokenKind → Option β} {k : TokenKind} {b : β}
    (h : read k = some b) (hleft : read (.mark .leftBrace) = none)
    (hright : read (.mark .rightBrace) = none) (hend : read .eof = none) :
    ¬IsBrace k ∧ k ≠ .eof := by
  refine ⟨?_, ?_⟩
  · rintro (rfl | rfl)
    · rw [hleft] at h
      cases h
    · rw [hright] at h
      cases h
  · rintro rfl
    rw [hend] at h
    cases h

namespace Below

variable {enough : Prop} {f g : Productions} {p : Production} {s t : State}

theorem expr (h : Below enough f g p s) (ht : t.rest.length < s.rest.length) :
    Outcome enough enough (f .expr) (g .expr) t fun _ u => u.rest.length < t.rest.length :=
  (h.later .expr t ht).outcome

theorem unary (h : Below enough f g p s) (ht : t.rest.length < s.rest.length) :
    Outcome enough enough (f .unary) (g .unary) t fun _ u => u.rest.length < t.rest.length :=
  (h.later .unary t ht).outcome

theorem postfixTail (h : Below enough f g p s) (ht : t.rest.length < s.rest.length)
    (e : Tree.Expr) :
    Outcome enough enough (f (.postfixTail e)) (g (.postfixTail e)) t
      fun _ u => u.rest.length < s.rest.length :=
  (h.later (.postfixTail e) t ht).outcome.le.imp fun hu => Nat.lt_of_le_of_lt hu.1 ht

theorem binaryTail (h : Below enough f g p s) (ht : t.rest.length < s.rest.length) (level : Nat)
    (left : Tree.Expr) :
    Outcome enough enough (f (.binaryTail level left)) (g (.binaryTail level left)) t
      fun _ u => u.rest.length < s.rest.length :=
  (h.later (.binaryTail level left) t ht).outcome.le.imp fun hu => Nat.lt_of_le_of_lt hu.1 ht

theorem arguments (h : Below enough f g p s) (ht : t.rest.length < s.rest.length) :
    Outcome enough enough (f .arguments) (g .arguments) t
      fun _ u => u.rest.length < t.rest.length :=
  (h.later .arguments t ht).outcome

theorem exprs (h : Below enough f g p s) (ht : t.rest.length < s.rest.length) :
    Outcome enough enough (f .exprs) (g .exprs) t fun _ u => u.rest.length < t.rest.length :=
  (h.later .exprs t ht).outcome

theorem stmt (h : Below enough f g p s) (ht : t.rest.length < s.rest.length) :
    Outcome enough enough (f .stmt) (g .stmt) t fun _ u => u.rest.length < t.rest.length :=
  (h.later .stmt t ht).outcome

/-! ### Expressions -/

theorem round_expr (h : Below enough f g .expr s) :
    Outcome enough enough (f.round .expr) (g.round .expr) s
      fun _ t => t.rest.length < s.rest.length := by
  have htarget : Outcome enough enough (f .conditional) (g .conditional) s
      fun _ t => t.rest.length < s.rest.length := (h.lower .conditional (by decide)).outcome
  refine htarget.bind fun {target t} _ ht => .get_bind (fun _ => rfl) ?_
  split
  · exact .pure ht
  · next op hop =>
      obtain ⟨hbrace, hend⟩ := plain_of_eq_some hop rfl rfl rfl
      refine .advance_bind rfl hbrace hend fun hlt => ?_
      refine (h.expr (by omega)).bind fun {value u} _ hu => .pure ?_
      omega

theorem round_conditional (h : Below enough f g .conditional s) :
    Outcome enough enough (f.round .conditional) (g.round .conditional) s
      fun _ t => t.rest.length < s.rest.length := by
  have hcondition : Outcome enough enough (f (.binary 0)) (g (.binary 0)) s
      fun _ t => t.rest.length < s.rest.length := (h.lower (.binary 0) (by decide)).outcome
  refine hcondition.bind fun {condition t} _ ht => ?_
  refine (Outcome.accept (by decide)).bind fun {b u} hmoves hu => ?_
  have hle := hmoves.length_le
  refine .ite (fun _ => ?_) fun _ => .pure (by omega)
  refine (h.expr (by omega)).bind fun {yes v} _ hv => ?_
  refine (Outcome.expect (by decide)).bind fun {_ w} _ hw => ?_
  have hno : Outcome enough enough (f .conditional) (g .conditional) w
      fun _ u => u.rest.length < w.rest.length := (h.later .conditional w (by omega)).outcome
  exact hno.bind fun _ hx => .pure (by omega)

theorem round_binary {level : Nat} (h : Below enough f g (.binary level) s) :
    Outcome enough enough (f.round (.binary level)) (g.round (.binary level)) s
      fun _ t => t.rest.length < s.rest.length := by
  have hleft : Outcome enough enough (f .unary) (g .unary) s
      fun _ t => t.rest.length < s.rest.length := (h.lower .unary (Nat.lt_succ_self 2)).outcome
  exact hleft.bind fun {left t} _ ht => h.binaryTail ht level left

theorem round_binaryTail {level : Nat} {left : Tree.Expr}
    (h : Below enough f g (.binaryTail level left) s) :
    Outcome enough enough (f.round (.binaryTail level left)) (g.round (.binaryTail level left)) s
      fun _ _ => True := by
  refine .get_bind (fun _ => rfl) ?_
  split
  · exact .pure trivial
  · next op hop =>
      refine .ite (fun _ => ?_) fun _ => .pure trivial
      obtain ⟨hbrace, hend⟩ := plain_of_eq_some hop rfl rfl rfl
      refine .advance_bind rfl hbrace hend fun hlt => ?_
      have hright : Outcome enough enough (f (.binary (op.level + 1))) (g (.binary (op.level + 1)))
          s.advance fun _ t => t.rest.length < s.advance.rest.length :=
        (h.later (.binary (op.level + 1)) s.advance hlt).outcome
      refine hright.bind fun {right t} _ ht => ?_
      exact (h.binaryTail (by omega) level _).imp fun _ => trivial

theorem round_unary (h : Below enough f g .unary s) :
    Outcome enough enough (f.round .unary) (g.round .unary) s
      fun _ t => t.rest.length < s.rest.length := by
  refine .get_bind (fun _ => rfl) ?_
  split
  · next sign _ hsign =>
      obtain ⟨hbrace, hend⟩ := plain_of_eq_some hsign rfl rfl rfl
      refine .advance_bind rfl hbrace hend fun hlt => ?_
      exact (h.unary hlt).bind fun _ ht => .pure (by omega)
  · next increment _ hstep =>
      obtain ⟨hbrace, hend⟩ := plain_of_eq_some hstep rfl rfl rfl
      refine .advance_bind rfl hbrace hend fun hlt => ?_
      exact (h.unary hlt).bind fun _ ht => .pure (by omega)
  · refine .ite (fun hcast => ?_) fun _ => ?_
    · obtain ⟨-, hleft, -⟩ := atCast_iff.1 hcast
      refine .advance_bind hleft (by decide) TokenKind.noConfusion fun hlt => ?_
      refine Outcome.typeRef.bind fun {type t} _ ht => ?_
      refine (Outcome.expect (by decide)).bind fun {_ u} _ hu => ?_
      exact (h.unary (by omega)).bind fun _ hv => .pure (by omega)
    · have hprimary : Outcome enough enough (f .primary) (g .primary) s
          fun _ t => t.rest.length < s.rest.length := (h.lower .primary (by decide)).outcome
      exact hprimary.bind fun {e t} _ ht => h.postfixTail ht e

theorem round_postfixTail {e : Tree.Expr} (h : Below enough f g (.postfixTail e) s) :
    Outcome enough enough (f.round (.postfixTail e)) (g.round (.postfixTail e)) s
      fun _ _ => True := by
  have htail {t : State} (ht : t.rest.length < s.rest.length) (e : Tree.Expr) :
      Outcome enough enough (f (.postfixTail e)) (g (.postfixTail e)) t fun _ _ => True :=
    (h.postfixTail ht e).imp fun _ => trivial
  have hspanned {t : State} (ht : t.rest.length < s.rest.length) (e' : Text.Span → Tree.Expr) :
      Outcome enough enough (do f (.postfixTail (e' (← spanFrom e.span))))
        (do g (.postfixTail (e' (← spanFrom e.span)))) t fun _ _ => True :=
    Outcome.spanFrom.bind fun _ hu => hu ▸ htail ht _
  refine .get_bind (fun _ => rfl) ?_
  split
  · next hk =>
      refine .advance_bind hk (by decide) TokenKind.noConfusion fun hlt => ?_
      exact Outcome.ident.bind fun _ ht => htail (by omega) _
  · next hk =>
      have harguments : Outcome enough enough (f .arguments) (g .arguments) s
          fun _ t => t.rest.length < s.rest.length := (h.lower .arguments Nat.one_pos).outcome
      exact harguments.bind fun _ ht => hspanned ht _
  · next hk =>
      refine .advance_bind hk (by decide) TokenKind.noConfusion fun hlt => ?_
      refine (h.expr hlt).bind fun {index t} _ ht => ?_
      exact (Outcome.expect (by decide)).bind fun _ hu => hspanned (by omega) _
  · next hk =>
      exact .advance_bind hk (by decide) TokenKind.noConfusion fun hlt => hspanned hlt _
  · next hk =>
      exact .advance_bind hk (by decide) TokenKind.noConfusion fun hlt => hspanned hlt _
  · exact .pure trivial

theorem round_primary (h : Below enough f g .primary s) :
    Outcome enough enough (f.round .primary) (g.round .primary) s
      fun _ t => t.rest.length < s.rest.length := by
  refine .get_bind (fun _ => rfl) ?_
  split
  · next hk =>
      refine .advance_bind hk (by decide) TokenKind.noConfusion fun hlt => ?_
      refine (h.expr hlt).bind fun {inner t} _ ht => ?_
      exact (Outcome.expect (by decide)).bind fun _ hu => .pure (by omega)
  · next hk =>
      refine .advance_bind hk (by decide) TokenKind.noConfusion fun hlt => ?_
      refine Outcome.typeRef.bind fun {type t} _ ht => ?_
      exact (h.arguments (by omega)).bind fun {args u} _ hu => .spanned fun _ => by omega
  · exact Outcome.atom

theorem round_arguments (h : Below enough f g .arguments s) :
    Outcome enough enough (f.round .arguments) (g.round .arguments) s
      fun _ t => t.rest.length < s.rest.length := by
  refine (Outcome.expect (by decide)).bind fun {_ t} _ ht => ?_
  have hargs := (h.exprs ht).imp fun {_ u} hu => Nat.lt_trans hu ht
  refine (hargs.unlessMark ht).choice_bind fun {args u} _ hu => ?_
  exact (Outcome.expect (by decide)).bind fun _ hv => .pure (by omega)

theorem round_exprs (h : Below enough f g .exprs s) :
    Outcome enough enough (f.round .exprs) (g.round .exprs) s
      fun _ t => t.rest.length < s.rest.length := by
  have hone : Outcome enough enough (f .expr) (g .expr) s
      fun _ t => t.rest.length < s.rest.length := (h.lower .expr (by decide)).outcome
  exact hone.separated fun _ ht => h.exprs ht

/-! ### Statements -/

theorem declarator (h : Below enough f g p s) (ht : t.rest.length ≤ s.rest.length) :
    Outcome enough enough f.declarator g.declarator t
      fun _ u => u.rest.length < t.rest.length := by
  refine Outcome.ident.bind fun {name u} _ hu => ?_
  refine (Outcome.accept (by decide)).le.bind fun {b v} _ hv => ?_
  refine .ite (fun _ => ?_) fun _ => .pure (by omega)
  exact (h.expr (by omega)).bind fun _ hw => .pure (by omega)

theorem locals (h : Below enough f g p s) (ht : t.rest.length ≤ s.rest.length) :
    Outcome enough enough f.locals g.locals t fun _ u => u.rest.length < t.rest.length := by
  have htype : Outcome enough enough
      (do if ← acceptKeyword .kwVar then pure none else some <$> typeRef)
      (do if ← acceptKeyword .kwVar then pure none else some <$> typeRef) t
      fun _ u => u.rest.length < t.rest.length := by
    refine Outcome.acceptKeyword.le.bind fun {b u} _ hu => ?_
    refine .ite (fun hb => .pure (hu.2 hb)) fun _ => ?_
    exact Outcome.typeRef.map fun hv => by omega
  refine htype.choice_bind fun {type u} _ hu => ?_
  have hdeclarators : Outcome enough enough (f .declarators) (g .declarators) u
      fun _ v => v.rest.length < u.rest.length := (h.later .declarators u (by omega)).outcome
  exact hdeclarators.bind fun _ hv => .pure (by omega)

theorem condition (h : Below enough f g p s) (ht : t.rest.length ≤ s.rest.length) :
    Outcome enough enough f.condition g.condition t
      fun _ u => u.rest.length < t.rest.length := by
  refine (Outcome.expect (by decide)).bind fun {_ u} _ hu => ?_
  refine (h.expr (by omega)).bind fun {e v} _ hv => ?_
  exact (Outcome.expect (by decide)).bind fun _ hw => .pure (by omega)

theorem exprUnless {m : Mark} (h : Below enough f g p s) (ht : t.rest.length < s.rest.length) :
    Outcome enough enough (f.exprUnless m) (g.exprUnless m) t
      fun _ u => u.rest.length ≤ t.rest.length :=
  Outcome.unlessMark ((h.expr ht).map fun hu => Nat.le_of_lt hu) Nat.le.refl

theorem forInit (h : Below enough f g p s) (ht : t.rest.length < s.rest.length) :
    Outcome enough enough f.forInit g.forInit t fun _ u => u.rest.length ≤ t.rest.length := by
  refine .get_bind (fun _ => rfl) (.ite (fun _ => .pure Nat.le.refl) fun _ => ?_)
  refine .ite (fun _ => ?_) fun _ => ?_
  · exact (h.locals (by omega)).bind fun _ hu => .pure (by omega)
  · exact (h.exprs ht).bind fun _ hu => .pure (by omega)

theorem round_declarators (h : Below enough f g .declarators s) :
    Outcome enough enough (f.round .declarators) (g.round .declarators) s
      fun _ t => t.rest.length < s.rest.length :=
  (h.declarator Nat.le.refl).separated fun t ht => (h.later .declarators t ht).outcome

theorem round_stmt (h : Below enough f g .stmt s) :
    Outcome enough enough (f.round .stmt) (g.round .stmt) s
      fun _ t => t.rest.length < s.rest.length := by
  have hclosed {t : State} {make : Text.Span → Tree.Stmt} (ht : t.rest.length ≤ s.rest.length) :
      Outcome enough enough (do expect .semicolon; return make (← spanFrom s.span))
        (do expect .semicolon; return make (← spanFrom s.span)) t
        fun _ u => u.rest.length < s.rest.length :=
    (Outcome.expect (by decide)).bind fun _ hu => .spanned fun _ => by omega
  refine .get_bind (fun _ => rfl) ?_
  dsimp only
  split
  · have hblock : Outcome enough enough (f .block) (g .block) s
        fun _ t => t.rest.length < s.rest.length := (h.lower .block (by decide)).outcome
    exact hblock.bind fun _ ht => .spanned fun _ => ht
  · next hk =>
      exact .advance_bind hk (by decide) TokenKind.noConfusion fun hlt => .spanned fun _ => hlt
  · next hk =>
      refine .advance_bind hk (by decide) TokenKind.noConfusion fun hlt => ?_
      refine (h.condition (by omega)).bind fun {c t} _ ht => ?_
      refine (h.stmt (by omega)).bind fun {yes u} _ hu => ?_
      have helse : Outcome enough enough
          (do if ← acceptKeyword .kwElse then some <$> f .stmt else pure none)
          (do if ← acceptKeyword .kwElse then some <$> g .stmt else pure none) u
          fun _ v => v.rest.length ≤ u.rest.length := by
        refine Outcome.acceptKeyword.le.bind fun {b v} _ hv => ?_
        refine .ite (fun _ => (h.stmt (by omega)).map fun hw => by omega) fun _ => .pure (by omega)
      exact helse.choice_bind fun _ hv => .spanned fun _ => by omega
  · next hk =>
      refine .advance_bind hk (by decide) TokenKind.noConfusion fun hlt => ?_
      refine (h.condition (by omega)).bind fun {c t} _ ht => ?_
      exact (h.stmt (by omega)).bind fun _ hu => .spanned fun _ => by omega
  · next hk =>
      refine .advance_bind hk (by decide) TokenKind.noConfusion fun hlt => ?_
      refine (h.stmt (by omega)).bind fun {body t} _ ht => ?_
      refine Outcome.expectKeyword.bind fun {_ u} _ hu => ?_
      exact (h.condition (by omega)).bind fun _ hv => hclosed (by omega)
  · next hk =>
      refine .advance_bind hk (by decide) TokenKind.noConfusion fun hlt => ?_
      refine (Outcome.expect (by decide)).bind fun {_ t} _ ht => ?_
      refine (h.forInit (by omega)).bind fun {init u} _ hu => ?_
      refine (Outcome.expect (by decide)).bind fun {_ v} _ hv => ?_
      refine (h.exprUnless (by omega)).bind fun {c w} _ hw => ?_
      refine (Outcome.expect (by decide)).bind fun {_ x} _ hx => ?_
      have hsteps := (h.exprs (t := x) (by omega)).imp fun {_ y} hy => Nat.le_of_lt hy
      refine (hsteps.unlessMark Nat.le.refl).choice_bind fun {steps y} _ hy => ?_
      refine (Outcome.expect (by decide)).bind fun {_ z} _ hz => ?_
      exact (h.stmt (by omega)).bind fun _ _ => .spanned fun _ => by omega
  · next hk =>
      refine .advance_bind hk (by decide) TokenKind.noConfusion fun hlt => ?_
      exact (h.exprUnless hlt).bind fun _ ht => hclosed (by omega)
  · next hk =>
      refine .advance_bind hk (by decide) TokenKind.noConfusion fun hlt => ?_
      exact (h.expr hlt).bind fun _ ht => hclosed (by omega)
  · next hk =>
      refine .advance_bind hk (by decide) TokenKind.noConfusion fun hlt => hclosed (by omega)
  · next hk =>
      refine .advance_bind hk (by decide) TokenKind.noConfusion fun hlt => hclosed (by omega)
  · refine .ite (fun _ => ?_) fun _ => ?_
    · exact (h.locals Nat.le.refl).bind fun _ ht => hclosed (by omega)
    · have hexpr : Outcome enough enough (f .expr) (g .expr) s
          fun _ t => t.rest.length < s.rest.length := (h.lower .expr (by decide)).outcome
      exact hexpr.bind fun _ ht => hclosed (by omega)

/-- A block is a pair of braces, whatever is wrong with its statements. -/
theorem block (h : Below enough f g p s) :
    Outcome enough enough (f.round .block) (g.round .block) s
      fun _ t => t.rest.length < s.rest.length ∧ (enough → Encloses s t) := by
  refine .get_bind (fun _ => rfl) ?_
  have hbody : Outcome enough enough (enclosed (f .stmts)) (enclosed (g .stmts)) s
      fun _ t => t.rest.length < s.rest.length ∧ (enough → Encloses s t) :=
    .enclosed id fun t ht => ⟨(h.later .stmts t ht).outcome, (h.later .stmts t ht).total trivial⟩
  exact hbody.bind fun _ ht => .spanned fun _ => ht

theorem round_stmts (h : Below enough f g .stmts s) : Meets enough f.round g.round .stmts s := by
  have hone (_ : s.atClose = false) : Outcome enough enough (f .stmt) (g .stmt) s
      fun _ t => t.rest.length < s.rest.length := (h.lower .stmt (by decide)).outcome
  have hskip (hgoes : s.atClose = false) (u : State) (hu : u.rest = s.rest) :
      u.skipStatement.rest.length < s.rest.length := by
    rw [← hu]
    exact length_skipStatement_lt ((atClose_congr hu).trans hgoes)
  have hlater (t : State) (ht : t.rest.length < s.rest.length) := h.later .stmts t ht
  refine ⟨.sequence hone skips_skipStatement hskip (fun t ht => (hlater t ht).outcome) fun _ => rfl,
    fun _ => ?_⟩
  exact total_sequence hone skips_skipStatement hskip fun t ht => (hlater t ht).total trivial

/-! ### Sources -/

theorem round_paramList (h : Below enough f g .paramList s) :
    Outcome enough enough (f.round .paramList) (g.round .paramList) s
      fun _ t => t.rest.length < s.rest.length := by
  have hone : Outcome enough enough param param s fun _ t => t.rest.length < s.rest.length :=
    Outcome.typeRef.bind fun _ ht => Outcome.ident.bind fun _ hu => .pure (by omega)
  exact hone.separated fun t ht => (h.later .paramList t ht).outcome

theorem params (h : Below enough f g p s) (ht : t.rest.length ≤ s.rest.length) :
    Outcome enough enough f.params g.params t fun _ u => u.rest.length < t.rest.length := by
  refine (Outcome.expect (by decide)).bind fun {_ u} _ hu => ?_
  have hlist : Outcome enough enough (f .paramList) (g .paramList) u
      fun _ v => v.rest.length < u.rest.length := (h.later .paramList u (by omega)).outcome
  have hparams := hlist.imp fun {_ v} hv => Nat.le_of_lt hv
  refine (hparams.unlessMark Nat.le.refl).choice_bind fun {ps v} _ hv => ?_
  exact (Outcome.expect (by decide)).bind fun _ hw => .pure (by omega)

theorem method (h : Below enough f g p s) :
    Outcome enough enough f.method g.method s fun _ t => t.rest.length < s.rest.length := by
  refine .get_bind (fun _ => rfl) ?_
  refine (Outcome.methodHead fun t ht => h.params ht).bind fun {_ t} _ ht => ?_
  have hbody : Outcome enough enough (f .block) (g .block) t
      fun _ u => u.rest.length < t.rest.length := (h.later .block t ht).outcome
  exact hbody.bind fun _ hu => .spanned fun _ => by omega

theorem round_methods (h : Below enough f g .methods s) :
    Meets enough f.round g.round .methods s := by
  have hone (_ : s.atClose = false) : Outcome enough enough f.method g.method s
      fun _ t => t.rest.length < s.rest.length := h.method
  have hskip (hgoes : s.atClose = false) (u : State) (hu : u.rest = s.rest) :
      u.skipMember.rest.length < s.rest.length := by
    rw [← hu]
    exact length_skipMember_lt ((atClose_congr hu).trans hgoes)
  have hlater (t : State) (ht : t.rest.length < s.rest.length) := h.later .methods t ht
  refine ⟨.sequence hone skips_skipMember hskip (fun t ht => (hlater t ht).outcome) fun _ => rfl,
    fun _ => ?_⟩
  exact total_sequence hone skips_skipMember hskip fun t ht => (hlater t ht).total trivial

theorem round_importPath (h : Below enough f g .importPath s) :
    Outcome enough enough (f.round .importPath) (g.round .importPath) s fun _ _ => True := by
  refine (Outcome.accept (by decide)).bind fun {b t} _ ht => ?_
  refine .ite (fun hb => ?_) fun _ => .pure trivial
  have hlt := ht hb
  refine Outcome.ident.bind fun {name u} _ hu => ?_
  have hpath : Outcome enough enough (f .importPath) (g .importPath) u fun _ _ => True :=
    (h.later .importPath u (by omega)).outcome
  exact hpath.bind fun _ _ => .pure trivial

theorem importDecl (h : Below enough f g p s) (hk : s.kind = .keyword .kwUsing) :
    Outcome enough enough f.importDecl g.importDecl s fun _ t => t.rest.length < s.rest.length := by
  refine .get_bind (fun _ => rfl) (.advance_bind hk (by decide) TokenKind.noConfusion fun hlt => ?_)
  refine Outcome.ident.bind fun {first t} _ ht => ?_
  have hpath : Outcome enough enough (f .importPath) (g .importPath) t fun _ _ => True :=
    (h.later .importPath t (by omega)).outcome
  refine hpath.le.bind fun {rest u} _ hu => ?_
  exact (Outcome.expect (by decide)).bind fun _ hv => .spanned fun _ => by omega

theorem round_imports (h : Below enough f g .imports s) :
    Meets enough f.round g.round .imports s := by
  have husing {u : State} (hgoes : (!u.atKeyword .kwUsing) = false) :
      u.kind = .keyword .kwUsing := atKeyword_iff.1 (by simpa using hgoes)
  have hone (hgoes : (!s.atKeyword .kwUsing) = false) : Outcome enough enough f.importDecl
      g.importDecl s fun _ t => t.rest.length < s.rest.length := h.importDecl (husing hgoes)
  have hskip (hgoes : (!s.atKeyword .kwUsing) = false) (u : State) (hu : u.rest = s.rest) :
      u.skipMember.rest.length < s.rest.length := by
    have hk := (kind_congr hu).trans (husing hgoes)
    rw [← hu]
    refine length_skipMember_lt (atClose_eq_false_iff.2 ?_)
    rw [hk]
    exact ⟨TokenKind.noConfusion, TokenKind.noConfusion⟩
  have hlater (t : State) (ht : t.rest.length < s.rest.length) := h.later .imports t ht
  refine ⟨.sequence hone skips_skipMember hskip (fun t ht => (hlater t ht).outcome) fun _ => rfl,
    fun _ => ?_⟩
  exact total_sequence hone skips_skipMember hskip fun t ht => (hlater t ht).total trivial

theorem cls {level : Prop} (hlevel : level → enough) (s : State)
    (hmethods : ∀ t, t.rest.length < s.rest.length →
      Outcome level enough (f .methods) (g .methods) t (fun _ u => u.atClose = true) ∧
        Total (f .methods) t) :
    Outcome level enough f.cls g.cls s fun _ t => t.rest.length < s.rest.length := by
  refine .get_bind (fun _ => rfl) (Outcome.classHead.bind fun {_ t} _ ht => ?_)
  have hbody : Outcome level enough (enclosed (f .methods)) (enclosed (g .methods)) t
      fun _ u => u.rest.length < t.rest.length ∧ (level → Encloses t u) :=
    .enclosed hlevel fun u hu => hmethods u (by omega)
  exact hbody.bind fun _ hu => .spanned fun _ => by omega

theorem round_classes (h : Below enough f g .classes s) :
    Meets enough f.round g.round .classes s := by
  have hone (_ : s.atEnd = false) : Outcome False enough f.cls g.cls s
      fun _ t => t.rest.length < s.rest.length :=
    cls False.elim s fun t ht => ⟨(h.later .methods t ht).outcome.mono False.elim id,
      (h.later .methods t ht).total trivial⟩
  have hskip (hgoes : s.atEnd = false) (u : State) (hu : u.rest = s.rest) :
      u.skipToClass.rest.length < s.rest.length := by
    rw [← hu]
    exact length_skipToClass_lt ((atEnd_congr hu).trans hgoes)
  have hlater (t : State) (ht : t.rest.length < s.rest.length) := h.later .classes t ht
  refine ⟨.sequence hone skips_skipToClass hskip (fun t ht => (hlater t ht).outcome) fun _ => rfl,
    fun _ => ?_⟩
  exact total_sequence hone skips_skipToClass hskip fun t ht => (hlater t ht).total trivial

/-- One round takes productions that meet below a production to ones that meet at it. -/
theorem meets (h : Below enough f g p s) : Meets enough f.round g.round p s := by
  cases p with
  | expr => exact ⟨h.round_expr, False.elim⟩
  | conditional => exact ⟨h.round_conditional, False.elim⟩
  | binary level => exact ⟨h.round_binary, False.elim⟩
  | binaryTail level left => exact ⟨h.round_binaryTail, False.elim⟩
  | unary => exact ⟨h.round_unary, False.elim⟩
  | postfixTail e => exact ⟨h.round_postfixTail, False.elim⟩
  | primary => exact ⟨h.round_primary, False.elim⟩
  | arguments => exact ⟨h.round_arguments, False.elim⟩
  | exprs => exact ⟨h.round_exprs, False.elim⟩
  | declarators => exact ⟨h.round_declarators, False.elim⟩
  | stmt => exact ⟨h.round_stmt, False.elim⟩
  | block => exact ⟨h.block.imp fun ht => ht.1, False.elim⟩
  | stmts => exact h.round_stmts
  | paramList => exact ⟨h.round_paramList, False.elim⟩
  | methods => exact h.round_methods
  | importPath => exact ⟨h.round_importPath, False.elim⟩
  | imports => exact h.round_imports
  | classes => exact h.round_classes

end Below

/-! ### The bound on recursion -/

theorem Production.level_le (p : Production) : p.level ≤ 7 := by
  unfold level
  split <;> decide

/-- The bound is enough for a production in a state. -/
def Enough (n : Nat) (p : Production) (s : State) : Prop :=
  8 * s.rest.length + p.level < n

section

variable {n m : Nat} {p q : Production} {s t : State}

theorem Enough.lower (h : Enough (n + 1) p s) (hq : q.level < p.level) : Enough n q s := by
  unfold Enough at h ⊢
  omega

theorem Enough.later (h : Enough (n + 1) p s) (ht : t.rest.length < s.rest.length) :
    Enough n q t := by
  unfold Enough at h ⊢
  have hle := q.level_le
  omega

theorem Enough.exists_succ (h : Enough n p s) : ∃ k, n = k + 1 :=
  Nat.exists_eq_add_of_le' (Nat.lt_of_le_of_lt (Nat.zero_le _) h)

theorem productions_zero (p : Production) : productions 0 p = failHere .exhausted := by
  cases p <;> rfl

/-- Bounds that are enough come to the same. -/
theorem meets_of_enough (hn : Enough n p s) (hm : Enough m p s) :
    Meets True (productions n) (productions m) p s := by
  induction n generalizing m p s with
  | zero => exact absurd hn (Nat.not_lt_zero _)
  | succ n ih =>
      obtain ⟨m, rfl⟩ := hm.exists_succ
      rw [productions_succ, productions_succ]
      refine Below.meets ⟨fun q hq => ?_, fun q t ht => ?_⟩
      · exact ih (hn.lower hq) (hm.lower hq)
      · exact ih (hn.later ht) (hm.later ht)

theorem below_of_enough (hn : Enough (n + 1) p s) (hm : Enough (m + 1) p s) :
    Below True (productions n) (productions m) p s :=
  ⟨fun _ hq => meets_of_enough (hn.lower hq) (hm.lower hq),
    fun _ _ ht => meets_of_enough (hn.later ht) (hm.later ht)⟩

theorem meets_productions (n : Nat) (p : Production) (s : State) :
    Meets False (productions n) (productions n) p s := by
  induction n generalizing p s with
  | zero =>
      have hfail {f : SyntaxFailure} {t : State} (h : Fails (productions 0 p) s f t) :
          f = ⟨.exhausted, s.span⟩ ∧ t = s := by
        rw [productions_zero] at h
        cases h
        exact ⟨rfl, rfl⟩
      refine ⟨⟨fun front => ?_, fun hread => ?_, fun h => ?_⟩, fun _ f t h => ?_⟩
      · rw [productions_zero]
        rfl
      · rw [productions_zero] at hread
        exact absurd hread not_reads_failHere
      · obtain ⟨rfl, rfl⟩ := hfail h
        exact ⟨.refl _, shows_span _, False.elim⟩
      · rw [(hfail h).1]
  | succ n ih =>
      rw [productions_succ]
      exact Below.meets ⟨fun q _ => ih q s, fun q t _ => ih q t⟩

end

end Scriptlet.Parser
