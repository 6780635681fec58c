import Scriptlet.Proofs.Typing.Scoping
import Scriptlet.Proofs.Typing.WellTyped.Expr

namespace Scriptlet.Typing

/-!
# Elaborated statements make sense

The core statement of an accepted statement makes sense as long as the slots do not run out. Slots
that have run out show: the last one is the greatest slot, which no method has.
-/

open Scriptlet.Core (Interface BlockHasType blockDeclared)
open Variables

section

variable {ctx : Context} {sigs : Interface}

theorem Decides.hasType (hctx : ctx.Agrees sigs) {v : Variables} {e : Tree.Expr} {c : Core.Expr}
    (h : Decides ctx v.look e c) : c.HasType sigs v.locals (.of .bool) := by
  cases h with
  | mk he hc =>
      have htype := Elaborates.hasType hctx (fun _ _ => mem_locals_of_look) e he
      exact .convert htype (Conversion.leads_of_implicit? he.known hc)

theorem Acts.isAction (hctx : ctx.Agrees sigs) {v : Variables} {e : Tree.Expr} {core : Core.Stmt}
    (h : Acts ctx v.look e core) : core.IsAction sigs v.locals := by
  cases h with
  | mk he => exact ⟨_, _, rfl, Elaborates.hasType hctx (fun _ _ => mem_locals_of_look) e he⟩

theorem isAction_of_acts (hctx : ctx.Agrees sigs) {v : Variables} {es : List Tree.Expr}
    {core : List Core.Stmt} (h : List.Forall₂ (Acts ctx v.look) es core) :
    ∀ st ∈ core, st.IsAction sigs v.locals := by
  induction h with
  | nil => exact fun st hst => absurd hst List.not_mem_nil
  | cons hfirst _ ih =>
      intro st hst
      rcases List.mem_cons.1 hst with rfl | hst
      · exact hfirst.isAction hctx
      · exact ih st hst

theorem Begins.hasType (hctx : ctx.Agrees sigs) {v : Variables} {type : Option DataType}
    {value : Option Tree.Expr} {t : DataType} {e : Core.Expr} (htype : type ≠ some .void)
    (h : Begins ctx v.look type value t e) : t ≠ .void ∧ e.HasType sigs v.locals (.of t) := by
  cases h with
  | @stated _ source _ _ he hc =>
      have hvalue := Elaborates.hasType hctx (fun _ _ => mem_locals_of_look) source he
      exact ⟨fun ht => htype (by rw [ht]),
        .convert hvalue (Conversion.leads_of_implicit? he.known hc)⟩
  | default =>
      have hvoid : t ≠ .void := fun ht => htype (by rw [ht])
      exact ⟨hvoid, .literal (conforms_defaultOf hvoid)⟩
  | @inferred source _ _ he hs hvoid =>
      have hvalue := Elaborates.hasType hctx (fun _ _ => mem_locals_of_look) source he
      rw [hs] at hvalue
      exact ⟨hvoid, hvalue⟩

theorem States.ne_void {r : Option Tree.TypeRef} {type : Option DataType}
    (h : States ctx r type) : type ≠ some .void := by
  cases h with
  | type _ hvoid => exact fun heq => hvoid (Option.some.inj heq)
  | inferred => exact fun heq => nomatch heq

theorem throwable_of_isThrowable {t : StaticType} (hknown : t ≠ .unknown)
    (h : isThrowable t = true) : Core.Throwable t := by
  unfold isThrowable at h
  split at h
  · exact .exception _
  · exact .null
  · exact absurd rfl hknown
  · cases h

theorem DeclareAll.hasType (hctx : ctx.Agrees sigs) {result : DataType} {inLoop : Bool}
    {type : Option DataType} (htype : type ≠ some .void) {v u : Variables}
    {ds : List Tree.Declarator} {core : List Core.Stmt} (h : DeclareAll ctx type v ds core u)
    (hv : v.Orderly) (hspared : Spared (blockDeclared core)) :
    BlockHasType sigs result inLoop v.locals core u.locals := by
  induction h with
  | nil => exact .nil
  | @cons v d t e u ds rest w hbegins hdeclares _ ih =>
      obtain ⟨hfirst, hrest⟩ := spared_append hspared
      have hslot : v.draft.locals ≠ 0xFFFF := hfirst _ (by simp [Core.Stmt.declared])
      obtain ⟨hvoid, he⟩ := hbegins.hasType hctx htype
      have hblock := ih (hdeclares.orderly hv hslot) hrest
      rw [hdeclares.locals_eq hv.active] at hblock
      refine .cons (.store (l := ⟨v.draft.locals, t⟩) (fun l' hl' heq => ?_) hvoid he) hblock
      obtain ⟨⟨name, l⟩, hmem, rfl⟩ := List.mem_map.1 hl'
      have hbelow := hv.below _ hmem
      rw [heq] at hbelow
      exact UInt16.lt_irrefl _ hbelow

theorem Initializes.hasType (hctx : ctx.Agrees sigs) {result : DataType} {inLoop : Bool}
    {v u : Variables} {init : Tree.ForInit} {core : List Core.Stmt}
    (h : Initializes ctx v init core u) (hv : v.Orderly)
    (hspared : Spared (blockDeclared core)) :
    BlockHasType sigs result inLoop v.locals core u.locals := by
  cases h with
  | nothing => exact .nil
  | locals htype hds => exact hds.hasType hctx htype.ne_void hv hspared
  | exprs hacts => exact Core.blockHasType_actions (isAction_of_acts hctx hacts)

/-- A `for` statement is a block with its start and the loop. -/
theorem Initializes.hasType_forLoop (hctx : ctx.Agrees sigs) {inLoop : Bool}
    {v between inner : Variables} {init : Tree.ForInit} {acts : List Tree.Expr}
    {first steps : List Core.Stmt} {c : Option Core.Expr} {b : Core.Stmt}
    (hinit : Initializes ctx v.opened init first between) (hv : v.Orderly)
    (hspared : Spared (blockDeclared first)) (hgrows : Grows between.opened inner)
    (hc : ∀ e ∈ c, e.HasType sigs between.locals (.of .bool))
    (hb : b.HasType sigs ctx.method.result true between.locals inner.locals)
    (hacts : List.Forall₂ (Acts ctx inner.closed.look) acts steps) :
    (Core.Stmt.block (first ++ [.forLoop c b steps])).HasType sigs ctx.method.result inLoop v.locals
      inner.closed.closed.locals := by
  have hfirst : BlockHasType sigs ctx.method.result inLoop v.opened.locals first between.locals :=
    hinit.hasType hctx hv.opened hspared
  have hsteps := isAction_of_acts hctx hacts
  rw [hgrows.locals_closed] at hsteps
  rw [(hinit.grows.trans hgrows.closed).locals_closed]
  have hall := hfirst.append (.cons (.forLoop hc hb hsteps) .nil)
  exact .block hall (List.Subset.refl _) hfirst.subset

mutual

/-- An elaborated statement makes sense among the variables that are visible before and after it. -/
theorem StmtElaborates.hasType (hctx : ctx.Agrees sigs) : ∀ (s : Tree.Stmt) {inLoop : Bool}
    {v u : Variables} {core : Core.Stmt}, StmtElaborates ctx inLoop v s core u → v.Orderly →
      Spared core.declared → core.HasType sigs ctx.method.result inLoop v.locals u.locals
  | .block body span, inLoop, v, u, core, h, hv, hspared => by
      cases h with
      | block hbody =>
          rw [Core.Stmt.declared] at hspared
          have hblock := BlockElaborates.hasType hctx body hbody hv.opened hspared
          rw [(BlockElaborates.grows body hbody).locals_closed]
          exact .block hblock (List.Subset.refl _) hblock.subset
  | .empty span, inLoop, v, u, core, h, hv, hspared => by
      cases h with
      | empty => exact .block .nil (List.Subset.refl _) (List.Subset.refl _)
  | .locals d span, inLoop, v, u, core, h, hv, hspared => by
      cases h with
      | locals htype hds =>
          rw [Core.Stmt.declared] at hspared
          have hblock : BlockHasType sigs ctx.method.result inLoop v.locals _ u.locals :=
            hds.hasType hctx htype.ne_void hv hspared
          exact .block hblock hblock.subset (List.Subset.refl _)
  | .expr e span, inLoop, v, u, core, h, hv, hspared => by
      cases h with
      | expr hacts =>
          obtain ⟨x, t, rfl, hx⟩ := hacts.isAction hctx
          exact .eval hx
  | .cond condition yes none span, inLoop, v, u, core, h, hv, hspared => by
      cases h with
      | condOnly hc hy =>
          rw [Core.Stmt.declared] at hspared
          have hyes := StmtElaborates.hasType hctx yes hy hv.opened hspared
          rw [(StmtElaborates.grows yes hy).locals_closed]
          exact .condOnly (hc.hasType hctx) hyes
  | .cond condition yes (some no) span, inLoop, v, u, core, h, hv, hspared => by
      cases h with
      | condElse hc hy hn =>
          have hgrows := StmtElaborates.grows yes hy
          rw [Core.Stmt.declared] at hspared
          obtain ⟨hspared, hspared'⟩ := spared_append hspared
          have hyes := StmtElaborates.hasType hctx yes hy hv.opened hspared
          have hno := StmtElaborates.hasType hctx no hn (hgrows.orderly_closed hv).opened hspared'
          rw [locals_opened, hgrows.locals_closed] at hno
          rw [(StmtElaborates.grows no hn).locals_closed, hgrows.locals_closed]
          exact .condElse (hc.hasType hctx) hyes hno
  | .loop condition body span, inLoop, v, u, core, h, hv, hspared => by
      cases h with
      | loop hc hb =>
          rw [Core.Stmt.declared] at hspared
          have hbody := StmtElaborates.hasType hctx body hb hv.opened hspared
          rw [(StmtElaborates.grows body hb).locals_closed]
          exact .loop (hc.hasType hctx) hbody
  | .doLoop body condition span, inLoop, v, u, core, h, hv, hspared => by
      cases h with
      | doLoop hb hc =>
          rw [Core.Stmt.declared] at hspared
          have hbody := StmtElaborates.hasType hctx body hb hv.opened hspared
          have hcondition := hc.hasType hctx
          rw [(StmtElaborates.grows body hb).locals_closed] at hcondition ⊢
          exact .doLoop hcondition hbody
  | .forLoop init condition steps body span, inLoop, v, u, core, h, hv, hspared => by
      cases h with
      | forEver hinit hb hacts =>
          obtain ⟨hfirst, hspared'⟩ := spared_forLoop hspared
          have hinner := (hinit.orderly hv.opened hfirst).opened
          have hbody := StmtElaborates.hasType hctx body hb hinner hspared'
          exact hinit.hasType_forLoop hctx hv hfirst (StmtElaborates.grows body hb) (by simp) hbody
            hacts
      | forWhile hinit hc hb hacts =>
          obtain ⟨hfirst, hspared'⟩ := spared_forLoop hspared
          have hinner := (hinit.orderly hv.opened hfirst).opened
          have hbody := StmtElaborates.hasType hctx body hb hinner hspared'
          refine hinit.hasType_forLoop hctx hv hfirst (StmtElaborates.grows body hb) (fun e he => ?_)
            hbody hacts
          cases he
          exact hc.hasType hctx
  | .ret value span, inLoop, v, u, core, h, hv, hspared => by
      cases h with
      | retVoid hresult => exact .retVoid hresult
      | @ret _ _ e _ _ _ hresult he hc =>
          have hvalue := Elaborates.hasType hctx (fun _ _ => mem_locals_of_look) e he
          exact .ret hresult (.convert hvalue (Conversion.leads_of_implicit? he.known hc))
  | .throw e span, inLoop, v, u, core, h, hv, hspared => by
      cases h with
      | throw he hthrow =>
          have hvalue := Elaborates.hasType hctx (fun _ _ => mem_locals_of_look) e he
          exact .throw (throwable_of_isThrowable he.known hthrow) hvalue
  | .leave span, inLoop, v, u, core, h, hv, hspared => by
      cases h with
      | leave => exact .leave
  | .next span, inLoop, v, u, core, h, hv, hspared => by
      cases h with
      | next => exact .next

theorem BlockElaborates.hasType (hctx : ctx.Agrees sigs) : ∀ (body : List Tree.Stmt)
    {inLoop : Bool} {v u : Variables} {core : List Core.Stmt},
    BlockElaborates ctx inLoop v body core u → v.Orderly → Spared (blockDeclared core) →
      BlockHasType sigs ctx.method.result inLoop v.locals core u.locals
  | [], inLoop, v, u, core, h, hv, hspared => by
      cases h with
      | nil => exact .nil
  | s :: rest, inLoop, v, u, core, h, hv, hspared => by
      cases h with
      | cons hs hrest =>
          rw [blockDeclared] at hspared
          obtain ⟨hspared, hspared'⟩ := spared_append hspared
          have hfirst := StmtElaborates.hasType hctx s hs hv hspared
          have hothers := BlockElaborates.hasType hctx rest hrest (hs.orderly hv hspared) hspared'
          exact .cons hfirst hothers

end

end

end Scriptlet.Typing
