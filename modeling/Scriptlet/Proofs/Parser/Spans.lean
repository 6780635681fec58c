import Scriptlet.Proofs.Parser.Places

namespace Scriptlet.Parser

/-!
# Spans of what is read

Each production makes nodes that lie between the token at which it begins and the last one that it
reads, and that hold their parts.
-/

open Text (Span)
open Scriptlet.Tree (Expr Node LieIn)

namespace Production

/-- The nodes that a production makes. -/
def nodes : (p : Production) → p.Part → List Node
  | .expr, e | .conditional, e | .binary _, e | .binaryTail _ _, e | .unary, e | .postfixTail _, e
  | .primary, e => [.expr e]
  | .arguments, es | .exprs, es => es.map .expr
  | .declarators, ds => ds.flatMap Tree.Declarator.parts
  | .stmt, s => [.stmt s]
  | .block, b => [.block b]
  | .stmts, ss => ss.map .stmt
  | .paramList, ps => ps.flatMap Tree.Param.parts
  | .methods, ms => ms.map .method
  | .importPath, is => is.map .ident
  | .imports, is => is.map .importDecl
  | .classes, cs => cs.map .cls

/-- The operand that a production continues. -/
def operand? : Production → Option Expr
  | .binaryTail _ e | .postfixTail e => some e
  | _ => none

/-- The nodes that a production makes lie between its first and its last token; what continues an
operand makes a node that begins where the operand does, or behind an offset in front of it. -/
def Lies (source : List Char) (s t : State) (p : Production) (a : p.Part) : Prop :=
  match p.operand? with
  | none => LieIn source s.span.start t.lastSpan.stop (p.nodes a)
  | some e => ∀ lo, (Node.expr e).Lies source lo s.lastSpan.stop →
      LieIn source lo t.lastSpan.stop (p.nodes a)

end Production

/-- Productions whose nodes lie where they should. -/
structure Known (source : List Char) (g : Productions) : Prop where
  meets : ∀ p s, Meets False g g p s
  lies : ∀ {p s a t}, Placed source s → Reads (g p) s a t → p.Lies source s t a

namespace Known

variable {source : List Char} {g : Productions} {s t : State} {lo : Nat} {e : Expr}

theorem gives (h : Known source g) (p : Production) (s : State) :
    Gives source (g p) s fun a t => p.Leaves s t ∧ p.Lies source s t a := by
  intro hs
  have houtcome : Outcome False False (g p) (g p) s fun _ t => p.Leaves s t :=
    (h.meets p s).outcome.mono False.elim id
  exact ⟨houtcome.same,
    fun hread => ⟨(houtcome.reads hread).1, (houtcome.reads hread).2, h.lies hs hread⟩,
    houtcome.fails⟩

/-- What an expression that has been read is known to be. -/
theorem nodeIn (h : LieIn source s.span.start t.lastSpan.stop [.expr e]) :
    NodeIn source s t (.expr e) e.span :=
  nodeIn_of_lies (Tree.lieIn_singleton.1 h)

theorem expr (h : Known source g) : Gives source (g .expr) s fun e t =>
    t.rest.length < s.rest.length ∧ NodeIn source s t (.expr e) e.span :=
  (h.gives .expr s).imp fun ⟨hlt, hlies⟩ => ⟨hlt, nodeIn hlies⟩

theorem conditional (h : Known source g) : Gives source (g .conditional) s fun e t =>
    t.rest.length < s.rest.length ∧ NodeIn source s t (.expr e) e.span :=
  (h.gives .conditional s).imp fun ⟨hlt, hlies⟩ => ⟨hlt, nodeIn hlies⟩

theorem binary (h : Known source g) (level : Nat) : Gives source (g (.binary level)) s fun e t =>
    t.rest.length < s.rest.length ∧ NodeIn source s t (.expr e) e.span :=
  (h.gives (.binary level) s).imp fun ⟨hlt, hlies⟩ => ⟨hlt, nodeIn hlies⟩

theorem unary (h : Known source g) : Gives source (g .unary) s fun e t =>
    t.rest.length < s.rest.length ∧ NodeIn source s t (.expr e) e.span :=
  (h.gives .unary s).imp fun ⟨hlt, hlies⟩ => ⟨hlt, nodeIn hlies⟩

theorem primary (h : Known source g) : Gives source (g .primary) s fun e t =>
    t.rest.length < s.rest.length ∧ NodeIn source s t (.expr e) e.span :=
  (h.gives .primary s).imp fun ⟨hlt, hlies⟩ => ⟨hlt, nodeIn hlies⟩

theorem arguments (h : Known source g) : Gives source (g .arguments) s fun es t =>
    t.rest.length < s.rest.length ∧ LieIn source s.span.start t.lastSpan.stop (es.map .expr) :=
  h.gives .arguments s

theorem exprs (h : Known source g) : Gives source (g .exprs) s fun es t =>
    t.rest.length < s.rest.length ∧ LieIn source s.span.start t.lastSpan.stop (es.map .expr) :=
  h.gives .exprs s

theorem stmt (h : Known source g) : Gives source (g .stmt) s fun st t =>
    t.rest.length < s.rest.length ∧ (Node.stmt st).Lies source s.span.start t.lastSpan.stop :=
  (h.gives .stmt s).imp fun ⟨hlt, hlies⟩ => ⟨hlt, Tree.lieIn_singleton.1 hlies⟩

theorem binaryTail (h : Known source g) (level : Nat) {left : Expr}
    (hleft : (Node.expr left).Lies source lo s.lastSpan.stop) :
    Gives source (g (.binaryTail level left)) s fun e t =>
      (Node.expr e).Lies source lo t.lastSpan.stop :=
  (h.gives (.binaryTail level left) s).imp fun ⟨_, hlies⟩ =>
    Tree.lieIn_singleton.1 (hlies lo hleft)

theorem postfixTail (h : Known source g) (he : (Node.expr e).Lies source lo s.lastSpan.stop) :
    Gives source (g (.postfixTail e)) s fun e' t =>
      (Node.expr e').Lies source lo t.lastSpan.stop :=
  (h.gives (.postfixTail e) s).imp fun ⟨_, hlies⟩ => Tree.lieIn_singleton.1 (hlies lo he)

/-! ### Expressions -/

theorem places_of_lies {hi : Nat} (h : (Node.expr e).Lies source lo hi) :
    lo ≤ e.span.start ∧ e.span.start ≤ e.span.stop ∧ e.span.stop ≤ hi :=
  ⟨h.start, h.sound.fits.ordered, h.stop⟩

theorem round_expr (h : Known source g) : Gives source (g.round .expr) s fun e t =>
    (Node.expr e).Lies source s.span.start t.lastSpan.stop := by
  refine h.conditional.bind fun {target t} ⟨_, _⟩ ⟨_, htarget@⟨_, _⟩⟩ => ?_
  refine .get_bind (fun _ => rfl) fun _ => ?_
  split
  · exact .pure htarget.lies
  · next op hop =>
      obtain ⟨hbrace, hend⟩ := plain_of_eq_some hop rfl rfl rfl
      refine .advance_bind rfl hbrace hend fun ⟨_, _⟩ hlt => ?_
      refine h.expr.bind fun {value u} ⟨_, _⟩ ⟨_, hvalue@⟨_, _⟩⟩ => .pure ?_
      refine Node.lies_of_merge (htarget.fits rfl) (hvalue.fits rfl) rfl ?_ (by omega) (by omega)
        (by omega) (by omega)
      exact Tree.lieIn_cons.2 ⟨htarget.within rfl (by omega) (by omega),
        Tree.lieIn_singleton.2 (hvalue.within rfl (by omega) (by omega))⟩

theorem round_conditional (h : Known source g) : Gives source (g.round .conditional) s fun e t =>
    (Node.expr e).Lies source s.span.start t.lastSpan.stop := by
  refine (h.binary 0).bind fun {condition t} ⟨_, _⟩ ⟨_, hcondition@⟨_, _⟩⟩ => ?_
  refine (Gives.of (.accept (by decide))).bind fun {b u} ⟨_, _⟩ _ => ?_
  refine .ite (fun _ => ?_) fun _ => .pure (hcondition.within rfl (by omega) (by omega))
  refine h.expr.bind fun {yes v} ⟨_, _⟩ ⟨_, hyes@⟨_, _⟩⟩ => ?_
  refine (Gives.of (.expect (by decide))).bind fun {_ w} ⟨_, _⟩ _ => ?_
  refine h.conditional.bind fun {no x} ⟨_, _⟩ ⟨_, hno@⟨_, _⟩⟩ => .pure ?_
  refine Node.lies_of_merge (hcondition.fits rfl) (hno.fits rfl) rfl ?_ (by omega) (by omega)
    (by omega) (by omega)
  exact Tree.lieIn_cons.2 ⟨hcondition.within rfl (by omega) (by omega),
    Tree.lieIn_cons.2 ⟨hyes.within rfl (by omega) (by omega),
      Tree.lieIn_singleton.2 (hno.within rfl (by omega) (by omega))⟩⟩

theorem round_binary (h : Known source g) (level : Nat) :
    Gives source (g.round (.binary level)) s fun e t =>
      (Node.expr e).Lies source s.span.start t.lastSpan.stop :=
  h.unary.bind fun _ ⟨_, hleft⟩ => h.binaryTail level hleft.lies

/-- An operand and what continues it. -/
theorem lies_continued {n : Node} {ns : List Node} {b : Span} {mid hi : Nat}
    (he : (Node.expr e).Lies source lo mid) (hb : b.Fits source) (hspan : n.span = e.span.merge b)
    (hparts : n.parts = .expr e :: ns) (hns : LieIn source mid b.stop ns) (hmid : mid ≤ b.start)
    (hhi : b.stop ≤ hi) : n.Lies source lo hi := by
  obtain ⟨hstart, hordered, hstop⟩ := places_of_lies he
  have hle := hb.ordered
  have hend : e.span.stop ≤ b.stop := by omega
  refine Node.lies_of_merge he.sound.fits hb hspan ?_ hstart (by omega) (Nat.le_trans hend hhi) hhi
  rw [hparts]
  exact Tree.lieIn_cons.2 ⟨⟨he.sound, Nat.le.refl, hend⟩,
    hns.mono (Nat.le_trans hordered hstop) Nat.le.refl⟩

theorem round_binaryTail (h : Known source g) (level : Nat) {left : Expr}
    (hleft : (Node.expr left).Lies source lo s.lastSpan.stop) :
    Gives source (g.round (.binaryTail level left)) s fun e t =>
      (Node.expr e).Lies source lo t.lastSpan.stop := by
  refine .get_bind (fun _ => rfl) fun hs => ?_
  split
  · exact .pure hleft
  · next op hop =>
      refine .ite (fun _ => ?_) fun _ => .pure hleft
      obtain ⟨hbrace, hend⟩ := plain_of_eq_some hop rfl rfl rfl
      refine .advance_bind rfl hbrace hend fun ⟨_, _⟩ hlt => ?_
      refine (h.binary _).bind fun {right : Expr} {t} ⟨_, _⟩ ⟨_, hright@⟨_, _⟩⟩ => ?_
      refine h.binaryTail level (lies_continued hleft (hright.fits rfl) rfl rfl ?_ (by omega)
        (by omega))
      exact Tree.lieIn_singleton.2 (hright.within rfl (by omega) Nat.le.refl)

/-- A sign or a step in front of an operand. -/
theorem lies_prefixed {u v : State} {n : Node} {operand : Expr} (hs : Placed source s)
    (hfirst : Reaches source s u) (hlt : u.rest.length < s.rest.length)
    (ho : NodeIn source u v (.expr operand) operand.span)
    (hspan : n.span = s.span.merge operand.span) (hparts : n.parts = [.expr operand]) :
    n.Lies source s.span.start v.lastSpan.stop := by
  have hplaces := hfirst.places
  have hplaces' := ho.places
  refine Node.lies_of_merge hs.fits_span (ho.fits rfl) hspan ?_ Nat.le.refl (by omega) (by omega)
    (by omega)
  rw [hparts]
  exact Tree.lieIn_singleton.2 (ho.within rfl (by omega) Nat.le.refl)

theorem round_unary (h : Known source g) : Gives source (g.round .unary) s fun e t =>
    (Node.expr e).Lies source s.span.start t.lastSpan.stop := by
  refine .get_bind (fun _ => rfl) fun hs => ?_
  split
  · next sign _ hsign =>
      obtain ⟨hbrace, hend⟩ := plain_of_eq_some hsign rfl rfl rfl
      refine .advance_bind rfl hbrace hend fun ht hlt => ?_
      exact h.unary.bind fun _ ⟨_, ho⟩ => .pure (lies_prefixed hs ht hlt ho rfl rfl)
  · next increment _ hstep =>
      obtain ⟨hbrace, hend⟩ := plain_of_eq_some hstep rfl rfl rfl
      refine .advance_bind rfl hbrace hend fun ht hlt => ?_
      exact h.unary.bind fun _ ⟨_, ho⟩ => .pure (lies_prefixed hs ht hlt ho rfl rfl)
  · refine .ite (fun hcast => ?_) fun _ => ?_
    · obtain ⟨-, hleft, -⟩ := atCast_iff.1 hcast
      refine .advance_bind hleft (by decide) TokenKind.noConfusion fun ⟨_, _⟩ hlt => ?_
      refine Gives.typeRef.bind fun {type t} ⟨_, _⟩ ⟨_, htype⟩ => ?_
      refine (Gives.of (.expect (by decide))).bind fun {_ u} ⟨_, _⟩ _ => ?_
      refine h.unary.bind fun {operand v} ⟨_, _⟩ ⟨_, ho@⟨_, _⟩⟩ => .pure ?_
      refine Node.lies_of_merge hs.fits_span (ho.fits rfl) rfl ?_ Nat.le.refl (by omega) (by omega)
        (by omega)
      exact Tree.lieIn_cons.2 ⟨htype.mono (by omega) (by omega),
        Tree.lieIn_singleton.2 (ho.within rfl (by omega) (by omega))⟩
    · exact h.primary.bind fun _ ⟨_, he⟩ => h.postfixTail he.lies

theorem round_postfixTail (h : Known source g) {e : Expr}
    (he : (Node.expr e).Lies source lo s.lastSpan.stop) :
    Gives source (g.round (.postfixTail e)) s fun e' t =>
      (Node.expr e').Lies source lo t.lastSpan.stop := by
  refine .get_bind (fun _ => rfl) fun hs => ?_
  split
  · next hk =>
      refine .advance_bind hk (by decide) TokenKind.noConfusion fun ⟨_, _⟩ hlt => ?_
      refine Gives.ident.bind fun {name t} ⟨_, _⟩ ⟨_, hname@⟨_, _⟩⟩ => ?_
      refine h.postfixTail (lies_continued he (hname.fits rfl) rfl rfl ?_ (by omega) (by omega))
      exact Tree.lieIn_singleton.2 (hname.within rfl (by omega) Nat.le.refl)
  · next hk =>
      refine h.arguments.bind fun {args t} ⟨_, _⟩ ⟨hlt, hargs⟩ => .spanFrom_bind fun ht => ?_
      exact h.postfixTail (lies_continued he ht.fits_lastSpan rfl rfl
        (hargs.mono (by omega) Nat.le.refl) (by omega) Nat.le.refl)
  · next hk =>
      refine .advance_bind hk (by decide) TokenKind.noConfusion fun ⟨_, _⟩ hlt => ?_
      refine h.expr.bind fun {place t} ⟨_, _⟩ ⟨_, hplace@⟨_, _⟩⟩ => ?_
      refine (Gives.of (.expect (by decide))).bind fun {_ u} ⟨_, _⟩ _ => .spanFrom_bind fun hu => ?_
      refine h.postfixTail (lies_continued he hu.fits_lastSpan rfl rfl ?_ (by omega) Nat.le.refl)
      exact Tree.lieIn_singleton.2 (hplace.within rfl (by omega) (by omega))
  · next hk =>
      refine .advance_bind hk (by decide) TokenKind.noConfusion fun ⟨_, _⟩ hlt => ?_
      exact .spanFrom_bind fun ht => h.postfixTail (lies_continued he ht.fits_lastSpan rfl rfl
        Tree.lieIn_nil (by omega) Nat.le.refl)
  · next hk =>
      refine .advance_bind hk (by decide) TokenKind.noConfusion fun ⟨_, _⟩ hlt => ?_
      exact .spanFrom_bind fun ht => h.postfixTail (lies_continued he ht.fits_lastSpan rfl rfl
        Tree.lieIn_nil (by omega) Nat.le.refl)
  · exact .pure he

theorem round_primary (h : Known source g) : Gives source (g.round .primary) s fun e t =>
    (Node.expr e).Lies source s.span.start t.lastSpan.stop := by
  refine .get_bind (fun _ => rfl) fun hs => ?_
  split
  · next hk =>
      refine .advance_bind hk (by decide) TokenKind.noConfusion fun ⟨_, _⟩ hlt => ?_
      refine h.expr.bind fun {inner t} ⟨_, _⟩ ⟨_, hinner⟩ => ?_
      refine (Gives.of (.expect (by decide))).bind fun {_ u} ⟨_, _⟩ _ => .pure ?_
      exact hinner.lies.mono (by omega) (by omega)
  · next hk =>
      refine (Gives.covers .expr ?_).imp And.right
      refine .advance_bind hk (by decide) TokenKind.noConfusion fun ⟨_, _⟩ hlt => ?_
      refine Gives.typeRef.bind fun {type t} ⟨_, _⟩ ⟨_, htype⟩ => ?_
      refine h.arguments.bind fun {args u} ⟨_, _⟩ ⟨_, hargs⟩ => .spanned fun _ => ?_
      refine ⟨rfl, by omega, Tree.lieIn_cons.2 ⟨htype.mono (by omega) (by omega), ?_⟩⟩
      exact hargs.mono (by omega) Nat.le.refl
  · exact Gives.atom.imp And.right

theorem round_arguments (h : Known source g) : Gives source (g.round .arguments) s fun es t =>
    LieIn source s.span.start t.lastSpan.stop (es.map .expr) := by
  refine (Gives.of (.expect (by decide))).bind fun {_ t} ⟨_, _⟩ _ => ?_
  have hexprs := (h.exprs (s := t)).imp And.right
  refine (hexprs.unlessMark Tree.lieIn_nil).choice_bind fun {es u} ⟨_, _⟩ hes => ?_
  refine (Gives.of (.expect (by decide))).bind fun {_ v} ⟨_, _⟩ _ => .pure ?_
  exact hes.mono (by omega) (by omega)

theorem round_exprs (h : Known source g) : Gives source (g.round .exprs) s fun es t =>
    LieIn source s.span.start t.lastSpan.stop (es.map .expr) := by
  have hone : Gives source (g .expr) s fun e t =>
      LieIn source s.span.start t.lastSpan.stop [.expr e] :=
    h.expr.imp fun ⟨_, he⟩ => Tree.lieIn_singleton.2 he.lies
  have hmany (t : State) : Gives source (g .exprs) t fun es u =>
      ∀ e ∈ es, LieIn source t.span.start u.lastSpan.stop [.expr e] :=
    h.exprs.imp fun ⟨_, hes⟩ => Tree.lieIn_map.1 hes
  exact (hone.separated hmany).imp Tree.lieIn_map.2

/-! ### Statements -/

theorem declarator (h : Known source g) : Gives source g.declarator s fun d t =>
    LieIn source s.span.start t.lastSpan.stop d.parts := by
  refine Gives.ident.bind fun {name t} ⟨_, _⟩ ⟨_, hname⟩ => ?_
  refine (Gives.of (.accept (by decide))).bind fun {b u} ⟨_, _⟩ _ => .ite (fun _ => ?_) fun _ => ?_
  · refine h.expr.bind fun {value v} ⟨_, _⟩ ⟨_, hvalue⟩ => .pure ?_
    exact Tree.lieIn_cons.2 ⟨hname.lies.mono Nat.le.refl (by omega),
      Tree.lieIn_singleton.2 (hvalue.lies.mono (by omega) Nat.le.refl)⟩
  · exact .pure (Tree.lieIn_singleton.2 (hname.lies.mono Nat.le.refl (by omega)))

theorem declarators (h : Known source g) : Gives source (g .declarators) s fun ds t =>
    t.rest.length < s.rest.length ∧
      LieIn source s.span.start t.lastSpan.stop (ds.flatMap Tree.Declarator.parts) :=
  h.gives .declarators s

theorem round_declarators (h : Known source g) : Gives source (g.round .declarators) s fun ds t =>
    LieIn source s.span.start t.lastSpan.stop (ds.flatMap Tree.Declarator.parts) := by
  have hmany (t : State) : Gives source (g .declarators) t fun ds u =>
      ∀ d ∈ ds, LieIn source t.span.start u.lastSpan.stop d.parts :=
    h.declarators.imp fun ⟨_, hds⟩ => Tree.lieIn_flatMap.1 hds
  exact (h.declarator.separated hmany).imp Tree.lieIn_flatMap.2

theorem locals (h : Known source g) : Gives source g.locals s fun d t =>
    LieIn source s.span.start t.lastSpan.stop d.parts := by
  have htype : Gives source (do if ← acceptKeyword .kwVar then pure none else some <$> typeRef) s
      fun type t => LieIn source s.span.start t.lastSpan.stop (type.toList.map .type) := by
    refine (Gives.of .acceptKeyword).bind fun {b t} ⟨_, _⟩ _ => .ite (fun _ => ?_) fun _ => ?_
    · exact .pure Tree.lieIn_nil
    · refine Gives.typeRef.map fun ⟨_, htype⟩ => ?_
      exact Tree.lieIn_singleton.2 (htype.mono (by omega) Nat.le.refl)
  refine htype.choice_bind fun {type t} ⟨_, _⟩ htype => ?_
  refine h.declarators.bind fun {ds u} ⟨_, _⟩ ⟨_, hds⟩ => .pure (Tree.lieIn_append.2 ⟨?_, ?_⟩)
  · exact htype.mono Nat.le.refl (by omega)
  · exact hds.mono (by omega) Nat.le.refl

theorem condition (h : Known source g) : Gives source g.condition s fun e t =>
    (Node.expr e).Lies source s.span.start t.lastSpan.stop := by
  refine (Gives.of (.expect (by decide))).bind fun {_ t} ⟨_, _⟩ _ => ?_
  refine h.expr.bind fun {e u} ⟨_, _⟩ ⟨_, he⟩ => ?_
  refine (Gives.of (.expect (by decide))).bind fun {_ v} ⟨_, _⟩ _ => .pure ?_
  exact he.lies.mono (by omega) (by omega)

theorem exprUnless (h : Known source g) (m : Mark) : Gives source (g.exprUnless m) s fun e t =>
    LieIn source s.span.start t.lastSpan.stop (e.toList.map .expr) :=
  Gives.unlessMark (h.expr.map fun ⟨_, he⟩ => Tree.lieIn_singleton.2 he.lies) Tree.lieIn_nil

theorem forInit (h : Known source g) : Gives source g.forInit s fun init t =>
    LieIn source s.span.start t.lastSpan.stop init.parts := by
  refine .get_bind (fun _ => rfl) fun _ => .ite (fun _ => .pure Tree.lieIn_nil) fun _ => ?_
  refine .ite (fun _ => ?_) fun _ => ?_
  · exact h.locals.bind fun _ hd => .pure hd
  · exact h.exprs.bind fun _ ⟨_, hes⟩ => .pure hes

theorem block (h : Known source g) : Gives source (g .block) s fun b t =>
    t.rest.length < s.rest.length ∧ (Node.block b).Lies source s.span.start t.lastSpan.stop :=
  (h.gives .block s).imp fun ⟨hlt, hlies⟩ => ⟨hlt, Tree.lieIn_singleton.1 hlies⟩

/-- A statement that a semicolon ends. -/
theorem closed {make : Span → Tree.Stmt} {parts : List Node} (hle : t.rest.length ≤ s.rest.length)
    (hspan : ∀ span, (Node.stmt (make span)).span = span)
    (hparts : ∀ span, (Node.stmt (make span)).parts = parts)
    (hlies : LieIn source s.span.start t.lastSpan.stop parts) :
    Gives source (do expect .semicolon; return make (← spanFrom s.span)) t fun st u =>
      Covers source s u (.stmt st) := by
  refine (Gives.of (.expect (by decide))).bind fun {_ u} ⟨_, _⟩ hlt => .spanned fun _ => ?_
  refine ⟨hspan _, by omega, ?_⟩
  rw [hparts]
  exact hlies.mono Nat.le.refl (by omega)

theorem round_stmt (h : Known source g) : Gives source (g.round .stmt) s fun st t =>
    t.rest.length < s.rest.length ∧ (Node.stmt st).Lies source s.span.start t.lastSpan.stop := by
  refine Gives.covers .stmt (.get_bind (fun _ => rfl) fun hs => ?_)
  dsimp only
  split
  · refine h.block.bind fun {b t} ⟨_, _⟩ ⟨hlt, hb⟩ => .spanned fun _ => ⟨rfl, hlt, ?_⟩
    exact hb.parts
  · next hk =>
      refine .advance_bind hk (by decide) TokenKind.noConfusion fun ⟨_, _⟩ hlt => ?_
      exact .spanned fun _ => ⟨rfl, hlt, Tree.lieIn_nil⟩
  · next hk =>
      refine .advance_bind hk (by decide) TokenKind.noConfusion fun ⟨_, _⟩ hlt => ?_
      refine h.condition.bind fun {c t} ⟨_, _⟩ hc => ?_
      refine h.stmt.bind fun {yes u} ⟨_, _⟩ ⟨_, hyes⟩ => ?_
      have helse : Gives source
          (do if ← acceptKeyword .kwElse then some <$> g .stmt else pure none) u fun no v =>
          LieIn source u.span.start v.lastSpan.stop (no.toList.map .stmt) := by
        refine (Gives.of .acceptKeyword).bind fun {b v} ⟨_, _⟩ _ => .ite (fun _ => ?_) fun _ => ?_
        · refine h.stmt.map fun ⟨_, hno⟩ => ?_
          exact Tree.lieIn_singleton.2 (hno.mono (by omega) Nat.le.refl)
        · exact .pure Tree.lieIn_nil
      refine helse.choice_bind fun {no v} ⟨_, _⟩ hno => .spanned fun _ => ⟨rfl, by omega, ?_⟩
      exact Tree.lieIn_cons.2 ⟨hc.mono (by omega) (by omega),
        Tree.lieIn_cons.2 ⟨hyes.mono (by omega) (by omega), hno.mono (by omega) Nat.le.refl⟩⟩
  · next hk =>
      refine .advance_bind hk (by decide) TokenKind.noConfusion fun ⟨_, _⟩ hlt => ?_
      refine h.condition.bind fun {c t} ⟨_, _⟩ hc => ?_
      refine h.stmt.bind fun {body u} ⟨_, _⟩ ⟨_, hbody⟩ => .spanned fun _ => ⟨rfl, by omega, ?_⟩
      exact Tree.lieIn_cons.2 ⟨hc.mono (by omega) (by omega),
        Tree.lieIn_singleton.2 (hbody.mono (by omega) Nat.le.refl)⟩
  · next hk =>
      refine .advance_bind hk (by decide) TokenKind.noConfusion fun ⟨_, _⟩ hlt => ?_
      refine h.stmt.bind fun {body t} ⟨_, _⟩ ⟨_, hbody⟩ => ?_
      refine (Gives.of .expectKeyword).bind fun {_ u} ⟨_, _⟩ _ => ?_
      refine h.condition.bind fun {c v} ⟨_, _⟩ hc => ?_
      refine closed (by omega) (fun _ => rfl) (fun _ => rfl) (Tree.lieIn_cons.2 ⟨?_, ?_⟩)
      · exact hbody.mono (by omega) (by omega)
      · exact Tree.lieIn_singleton.2 (hc.mono (by omega) Nat.le.refl)
  · next hk =>
      refine .advance_bind hk (by decide) TokenKind.noConfusion fun ⟨_, _⟩ hlt => ?_
      refine (Gives.of (.expect (by decide))).bind fun {_ t} ⟨_, _⟩ _ => ?_
      refine h.forInit.bind fun {init u} ⟨_, _⟩ hinit => ?_
      refine (Gives.of (.expect (by decide))).bind fun {_ v} ⟨_, _⟩ _ => ?_
      refine (h.exprUnless .semicolon).bind fun {c w} ⟨_, _⟩ hc => ?_
      refine (Gives.of (.expect (by decide))).bind fun {_ x} ⟨_, _⟩ _ => ?_
      have hexprs := (h.exprs (s := x)).imp And.right
      refine (hexprs.unlessMark Tree.lieIn_nil).choice_bind fun {steps y} ⟨_, _⟩ hsteps => ?_
      refine (Gives.of (.expect (by decide))).bind fun {_ z} ⟨_, _⟩ _ => ?_
      refine h.stmt.bind fun {body w'} ⟨_, _⟩ ⟨_, hbody⟩ => .spanned fun _ => ⟨rfl, by omega, ?_⟩
      refine Tree.lieIn_append.2 ⟨Tree.lieIn_append.2 ⟨Tree.lieIn_append.2 ⟨?_, ?_⟩, ?_⟩, ?_⟩
      · exact hinit.mono (by omega) (by omega)
      · exact hc.mono (by omega) (by omega)
      · exact hsteps.mono (by omega) (by omega)
      · exact Tree.lieIn_singleton.2 (hbody.mono (by omega) Nat.le.refl)
  · next hk =>
      refine .advance_bind hk (by decide) TokenKind.noConfusion fun ⟨_, _⟩ hlt => ?_
      refine (h.exprUnless .semicolon).bind fun {value t} ⟨_, _⟩ hvalue => ?_
      exact closed (by omega) (fun _ => rfl) (fun _ => rfl) (hvalue.mono (by omega) Nat.le.refl)
  · next hk =>
      refine .advance_bind hk (by decide) TokenKind.noConfusion fun ⟨_, _⟩ hlt => ?_
      refine h.expr.bind fun {value t} ⟨_, _⟩ ⟨_, hvalue⟩ => ?_
      refine closed (by omega) (fun _ => rfl) (fun _ => rfl) (Tree.lieIn_singleton.2 ?_)
      exact hvalue.lies.mono (by omega) Nat.le.refl
  · next hk =>
      refine .advance_bind hk (by decide) TokenKind.noConfusion fun ⟨_, _⟩ hlt => ?_
      exact closed (by omega) (fun _ => rfl) (fun _ => rfl) Tree.lieIn_nil
  · next hk =>
      refine .advance_bind hk (by decide) TokenKind.noConfusion fun ⟨_, _⟩ hlt => ?_
      exact closed (by omega) (fun _ => rfl) (fun _ => rfl) Tree.lieIn_nil
  · refine .ite (fun _ => ?_) fun _ => ?_
    · refine h.locals.bind fun {d t} ⟨_, _⟩ hd => ?_
      exact closed (by omega) (fun _ => rfl) (fun _ => rfl) hd
    · refine h.expr.bind fun {e t} ⟨_, _⟩ ⟨_, he⟩ => ?_
      exact closed (by omega) (fun _ => rfl) (fun _ => rfl) (Tree.lieIn_singleton.2 he.lies)

theorem forall_stmts (h : Known source g) (s : State) : Gives source (g .stmts) s fun ss t =>
    ∀ st ∈ ss, LieIn source s.span.start t.lastSpan.stop [.stmt st] :=
  (h.gives .stmts s).imp fun ⟨_, hss⟩ => Tree.lieIn_map.1 hss

theorem round_stmts (h : Known source g) : Gives source (g.round .stmts) s fun ss t =>
    LieIn source s.span.start t.lastSpan.stop (ss.map .stmt) := by
  have hone (_ : s.atClose = false) : Gives source (g .stmt) s fun st t =>
      LieIn source s.span.start t.lastSpan.stop [.stmt st] :=
    h.stmt.imp fun ⟨_, hst⟩ => Tree.lieIn_singleton.2 hst
  exact (Gives.sequence hone skips_skipStatement h.forall_stmts fun _ => rfl).imp Tree.lieIn_map.2

theorem round_block (h : Known source g) : Gives source (g.round .block) s fun b t =>
    (Node.block b).Lies source s.span.start t.lastSpan.stop := by
  refine (Gives.covers .block (.get_bind (fun _ => rfl) fun _ => ?_)).imp And.right
  exact (Gives.enclosed h.forall_stmts).bind fun _ ⟨hlt, hbody⟩ => .spanned fun _ =>
    ⟨rfl, hlt, Tree.lieIn_map.2 hbody⟩

/-! ### Sources -/

theorem paramList (h : Known source g) : Gives source (g .paramList) s fun ps t =>
    LieIn source s.span.start t.lastSpan.stop (ps.flatMap Tree.Param.parts) :=
  (h.gives .paramList s).imp And.right

theorem round_paramList (h : Known source g) : Gives source (g.round .paramList) s fun ps t =>
    LieIn source s.span.start t.lastSpan.stop (ps.flatMap Tree.Param.parts) := by
  have hone : Gives source param s fun p t =>
      LieIn source s.span.start t.lastSpan.stop p.parts := by
    refine Gives.typeRef.bind fun {type t} ⟨_, _⟩ ⟨_, htype⟩ => ?_
    refine Gives.ident.bind fun {name u} ⟨_, _⟩ ⟨_, hname⟩ => .pure ?_
    exact Tree.lieIn_cons.2 ⟨htype.mono Nat.le.refl (by omega),
      Tree.lieIn_singleton.2 (hname.lies.mono (by omega) Nat.le.refl)⟩
  have hmany (t : State) : Gives source (g .paramList) t fun ps u =>
      ∀ p ∈ ps, LieIn source t.span.start u.lastSpan.stop p.parts :=
    h.paramList.imp Tree.lieIn_flatMap.1
  exact (hone.separated hmany).imp Tree.lieIn_flatMap.2

theorem params (h : Known source g) : Gives source g.params s fun ps t =>
    LieIn source s.span.start t.lastSpan.stop (ps.flatMap Tree.Param.parts) := by
  refine (Gives.of (.expect (by decide))).bind fun {_ t} ⟨_, _⟩ _ => ?_
  have hlist := h.paramList (s := t)
  refine (hlist.unlessMark Tree.lieIn_nil).choice_bind fun {ps u} ⟨_, _⟩ hps => ?_
  refine (Gives.of (.expect (by decide))).bind fun {_ v} ⟨_, _⟩ _ => .pure ?_
  exact hps.mono (by omega) (by omega)

theorem methodHead (h : Known source g) :
    Gives source (methodHead g.params) s fun (_, result, name, ps) t =>
      t.rest.length < s.rest.length ∧ LieIn source s.span.start t.lastSpan.stop
        (.type result :: .ident name :: ps.flatMap Tree.Param.parts) := by
  refine (Gives.of .modifiers).bind fun {mods t} ⟨_, _⟩ _ => .get_bind (fun _ => rfl) fun _ => ?_
  have hrest : Gives source
      (do
        let result ← typeRef
        let name ← ident
        requireMethod name
        let ps ← g.params
        return (mods, result, name, ps)) t
      fun (_, result, name, ps) u =>
        u.rest.length < s.rest.length ∧ LieIn source s.span.start u.lastSpan.stop
          (.type result :: .ident name :: ps.flatMap Tree.Param.parts) := by
    refine Gives.typeRef.bind fun {result u} ⟨_, _⟩ ⟨_, hresult⟩ => ?_
    have hident : Gives source ident u fun i v => (v.rest.length < u.rest.length ∧ v.Shows i.span) ∧
        v.rest.length < u.rest.length ∧ NodeIn source u v (.ident i) i.span :=
      fun hu => Outcome.ident.and (Gives.ident hu)
    refine hident.bind fun {name v} ⟨_, _⟩ ⟨⟨_, hshows⟩, _, hname⟩ => ?_
    refine (Gives.of (.requireMethod hshows)).bind fun {_ w} ⟨_, _⟩ _ => ?_
    refine h.params.bind fun {ps x} ⟨_, _⟩ hps => .pure ⟨by omega, ?_⟩
    exact Tree.lieIn_cons.2 ⟨hresult.mono (by omega) (by omega),
      Tree.lieIn_cons.2 ⟨hname.lies.mono (by omega) (by omega), hps.mono (by omega) Nat.le.refl⟩⟩
  dsimp only
  refine .ite (fun _ => .of (.stop (.fail SyntaxError.noConfusion (shows_span t)))) fun _ => ?_
  split
  · exact .of (.stop (.fail SyntaxError.noConfusion (shows_span t)))
  · exact hrest

theorem method (h : Known source g) : Gives source g.method s fun m t =>
    (Node.method m).Lies source s.span.start t.lastSpan.stop := by
  refine (Gives.covers .method (.get_bind (fun _ => rfl) fun _ => ?_)).imp And.right
  refine h.methodHead.bind fun {_ t} ⟨_, _⟩ ⟨_, hhead⟩ => ?_
  refine h.block.bind fun {body u} ⟨_, _⟩ ⟨_, hbody⟩ => .spanned fun _ => ⟨rfl, by omega, ?_⟩
  refine Tree.lieIn_append.2 ⟨hhead.mono Nat.le.refl (by omega), Tree.lieIn_singleton.2 ?_⟩
  exact hbody.mono (by omega) Nat.le.refl

theorem forall_methods (h : Known source g) (s : State) : Gives source (g .methods) s fun ms t =>
    ∀ m ∈ ms, LieIn source s.span.start t.lastSpan.stop [.method m] :=
  (h.gives .methods s).imp fun ⟨_, hms⟩ => Tree.lieIn_map.1 hms

theorem round_methods (h : Known source g) : Gives source (g.round .methods) s fun ms t =>
    LieIn source s.span.start t.lastSpan.stop (ms.map .method) := by
  have hone (_ : s.atClose = false) : Gives source g.method s fun m t =>
      LieIn source s.span.start t.lastSpan.stop [.method m] :=
    h.method.imp Tree.lieIn_singleton.2
  exact (Gives.sequence hone skips_skipMember h.forall_methods fun _ => rfl).imp Tree.lieIn_map.2

theorem importPath (h : Known source g) : Gives source (g .importPath) s fun is t =>
    LieIn source s.span.start t.lastSpan.stop (is.map .ident) :=
  (h.gives .importPath s).imp And.right

theorem round_importPath (h : Known source g) : Gives source (g.round .importPath) s fun is t =>
    LieIn source s.span.start t.lastSpan.stop (is.map .ident) := by
  refine (Gives.of (.accept (by decide))).bind fun {b t} ⟨_, _⟩ _ => .ite (fun _ => ?_) fun _ => ?_
  · refine Gives.ident.bind fun {name u} ⟨_, _⟩ ⟨_, hname⟩ => ?_
    refine h.importPath.bind fun {is v} ⟨_, _⟩ his => .pure (Tree.lieIn_cons.2 ⟨?_, ?_⟩)
    · exact hname.lies.mono (by omega) (by omega)
    · exact his.mono (by omega) Nat.le.refl
  · exact .pure Tree.lieIn_nil

theorem importDecl (h : Known source g) (hk : s.kind = .keyword .kwUsing) :
    Gives source g.importDecl s fun i t =>
      (Node.importDecl i).Lies source s.span.start t.lastSpan.stop := by
  refine (Gives.covers .importDecl (.get_bind (fun _ => rfl) fun _ => ?_)).imp And.right
  refine .advance_bind hk (by decide) TokenKind.noConfusion fun ⟨_, _⟩ hlt => ?_
  refine Gives.ident.bind fun {first t} ⟨_, _⟩ ⟨_, hfirst⟩ => ?_
  refine h.importPath.bind fun {rest u} ⟨_, _⟩ hrest => ?_
  refine (Gives.of (.expect (by decide))).bind fun {_ v} ⟨_, _⟩ _ => .spanned fun _ => ?_
  exact ⟨rfl, by omega, Tree.lieIn_cons.2 ⟨hfirst.lies.mono (by omega) (by omega),
    hrest.mono (by omega) (by omega)⟩⟩

theorem imports (h : Known source g) : Gives source (g .imports) s fun is t =>
    LieIn source s.span.start t.lastSpan.stop (is.map .importDecl) :=
  (h.gives .imports s).imp And.right

theorem round_imports (h : Known source g) : Gives source (g.round .imports) s fun is t =>
    LieIn source s.span.start t.lastSpan.stop (is.map .importDecl) := by
  have hone (hgoes : (!s.atKeyword .kwUsing) = false) : Gives source g.importDecl s fun i t =>
      LieIn source s.span.start t.lastSpan.stop [.importDecl i] :=
    (h.importDecl (atKeyword_iff.1 (by simpa using hgoes))).imp Tree.lieIn_singleton.2
  have hmany (t : State) : Gives source (g .imports) t fun is u =>
      ∀ i ∈ is, LieIn source t.span.start u.lastSpan.stop [.importDecl i] :=
    h.imports.imp Tree.lieIn_map.1
  exact (Gives.sequence hone skips_skipMember hmany fun _ => rfl).imp Tree.lieIn_map.2

theorem classHead : Gives source classHead s fun (_, name) t =>
    t.rest.length < s.rest.length ∧ (Node.ident name).Lies source s.span.start t.lastSpan.stop := by
  refine (Gives.of .modifiers).bind fun {mods t} ⟨_, _⟩ _ => ?_
  refine (Gives.of .acceptKeyword).bind fun {b u} ⟨_, _⟩ _ => .ite (fun _ => ?_) fun _ => ?_
  · exact .of (.stop (.failHere SyntaxError.noConfusion))
  · refine Gives.ident.bind fun {name v} ⟨_, _⟩ ⟨_, hname⟩ => .pure ⟨by omega, ?_⟩
    exact hname.lies.mono (by omega) Nat.le.refl

theorem cls (h : Known source g) : Gives source g.cls s fun c t =>
    (Node.cls c).Lies source s.span.start t.lastSpan.stop := by
  refine (Gives.covers .cls (.get_bind (fun _ => rfl) fun _ => ?_)).imp And.right
  refine classHead.bind fun {_ t} ⟨_, _⟩ ⟨_, hname⟩ => ?_
  refine (Gives.enclosed h.forall_methods).bind fun {ms u} ⟨_, _⟩ ⟨_, hms⟩ => .spanned fun _ => ?_
  exact ⟨rfl, by omega, Tree.lieIn_cons.2 ⟨hname.mono Nat.le.refl (by omega),
    (Tree.lieIn_map.2 hms).mono (by omega) Nat.le.refl⟩⟩

theorem classes (h : Known source g) : Gives source (g .classes) s fun cs t =>
    LieIn source s.span.start t.lastSpan.stop (cs.map .cls) :=
  (h.gives .classes s).imp And.right

theorem round_classes (h : Known source g) : Gives source (g.round .classes) s fun cs t =>
    LieIn source s.span.start t.lastSpan.stop (cs.map .cls) := by
  have hone (_ : s.atEnd = false) : Gives source g.cls s fun c t =>
      LieIn source s.span.start t.lastSpan.stop [.cls c] :=
    h.cls.imp Tree.lieIn_singleton.2
  have hmany (t : State) : Gives source (g .classes) t fun cs u =>
      ∀ c ∈ cs, LieIn source t.span.start u.lastSpan.stop [.cls c] :=
    h.classes.imp Tree.lieIn_map.1
  exact (Gives.sequence hone skips_skipToClass hmany fun _ => rfl).imp Tree.lieIn_map.2

/-- One round takes productions whose nodes lie where they should to ones whose nodes do. -/
theorem round (h : Known source g) : Known source g.round where
  meets p s := Below.meets ⟨fun q _ => h.meets q s, fun q t _ => h.meets q t⟩
  lies {p s a t} hs hread := by
    cases p with
    | expr => exact Tree.lieIn_singleton.2 ((h.round_expr hs).reads hread).2
    | conditional => exact Tree.lieIn_singleton.2 ((h.round_conditional hs).reads hread).2
    | binary level => exact Tree.lieIn_singleton.2 ((h.round_binary level hs).reads hread).2
    | binaryTail level left =>
        intro lo hleft
        exact Tree.lieIn_singleton.2 ((h.round_binaryTail level hleft hs).reads hread).2
    | unary => exact Tree.lieIn_singleton.2 ((h.round_unary hs).reads hread).2
    | postfixTail e =>
        intro lo he
        exact Tree.lieIn_singleton.2 ((h.round_postfixTail he hs).reads hread).2
    | primary => exact Tree.lieIn_singleton.2 ((h.round_primary hs).reads hread).2
    | arguments => exact ((h.round_arguments hs).reads hread).2
    | exprs => exact ((h.round_exprs hs).reads hread).2
    | declarators => exact ((h.round_declarators hs).reads hread).2
    | stmt => exact Tree.lieIn_singleton.2 ((h.round_stmt hs).reads hread).2.2
    | block => exact Tree.lieIn_singleton.2 ((h.round_block hs).reads hread).2
    | stmts => exact ((h.round_stmts hs).reads hread).2
    | paramList => exact ((h.round_paramList hs).reads hread).2
    | methods => exact ((h.round_methods hs).reads hread).2
    | importPath => exact ((h.round_importPath hs).reads hread).2
    | imports => exact ((h.round_imports hs).reads hread).2
    | classes => exact ((h.round_classes hs).reads hread).2

end Known

theorem known_productions (source : List Char) (n : Nat) : Known source (productions n) := by
  induction n with
  | zero =>
      refine ⟨meets_productions 0, fun _ hread => ?_⟩
      rw [productions_zero] at hread
      exact absurd hread not_reads_failHere
  | succ n ih =>
      rw [productions_succ]
      exact ih.round

/-- The parser of sources goes on to the end, and what it makes lies in the text. -/
theorem gives_source {text : List Char} {s : State} (n : Nat) :
    Gives text (source n) s fun tree t => LieIn text s.span.start t.lastSpan.stop
      (tree.imports.map .importDecl ++ tree.classes.map .cls) := by
  have h := known_productions text n
  refine (h.imports (s := s)).bind fun {is t} ⟨_, _⟩ his => ?_
  refine (h.classes (s := t)).bind fun {cs u} ⟨_, _⟩ hcs => .pure (Tree.lieIn_append.2 ⟨?_, ?_⟩)
  · exact his.mono Nat.le.refl (by omega)
  · exact hcs.mono (by omega) Nat.le.refl

end Scriptlet.Parser
