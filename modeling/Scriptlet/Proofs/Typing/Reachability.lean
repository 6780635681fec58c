import Scriptlet.Proofs.Core.Evaluation
import Scriptlet.Proofs.Typing.Elaboration
import Scriptlet.Typing.Reachability

namespace Scriptlet

/-!
# Endings

A statement ends only in the ways that its form allows: at its end if the end can be reached, and by
leaving the loop around it if a `break` can be reached.
-/

/-- The endings that are possible with what can be reached. -/
def Tree.Reach.Allows (r : Tree.Reach) : Ending → Prop
  | .normal => r.ends = true
  | .leave => r.leaves = true
  | .next | .ret _ => True

/-- Every result of a computation satisfies a predicate. -/
def Eval.Returns {σ α : Type} (P : α → Prop) (x : Eval σ α) : Prop :=
  ∀ s a t, x s = some (.ok a, t) → P a

namespace Eval.Returns

variable {σ α β : Type} {P : α → Prop} {Q : β → Prop}

theorem pure {a : α} (h : P a) : Returns P (pure a : Eval σ α) := by
  intro s b t hb
  obtain rfl := Except.ok.inj (congrArg Prod.fst (Option.some.inj hb))
  exact h

theorem bind {x : Eval σ α} {f : α → Eval σ β} (hx : Returns P x)
    (hf : ∀ a, P a → Returns Q (f a)) : Returns Q (x >>= f) := by
  intro s b t hb
  rw [Eval.bind_apply] at hb
  split at hb
  · next a u hu => exact hf a (hx s a u hu) u b t hb
  · cases hb
  · cases hb

/-- What comes behind a computation does not depend on its result. -/
theorem behind {x : Eval σ α} {f : α → Eval σ β} (hf : ∀ a, Returns Q (f a)) :
    Returns Q (x >>= f) :=
  bind (P := fun _ => True) (fun _ _ _ _ => trivial) fun a _ => hf a

theorem fail (f : Machine.Fault) : Returns P (Eval.fail f : Eval σ α) :=
  fun _ _ _ h => nomatch h

theorem imp {P' : α → Prop} {x : Eval σ α} (h : Returns P x) (himp : ∀ a, P a → P' a) :
    Returns P' x :=
  fun s a t ha => himp a (h s a t ha)

variable {test : Eval σ Bool} {body : Eval σ Ending} {advance : Eval σ Unit} {ends : Bool}

/-- A loop comes to its end by its test or by a `break`. -/
theorem loop (htest : Returns (fun b => b = false → ends = true) test)
    (hbody : Returns (fun ending => ending = .leave → ends = true) body) (fuel : Nat) :
    Returns (Tree.Reach.mk ends false).Allows (Eval.loop test body advance fuel) := by
  induction fuel with
  | zero => exact fun s a t h => nomatch h
  | succ fuel ih =>
      refine htest.bind fun b hb => ?_
      cases b with
      | false => exact pure (hb rfl)
      | true =>
          refine hbody.bind fun ending hending => ?_
          cases ending with
          | normal | next => exact behind fun _ => ih
          | leave => exact pure (hending rfl)
          | ret v => exact pure trivial

theorem doLoop (htest : Returns (fun b => b = false → ends = true) test)
    (hbody : Returns (fun ending => ending = .leave → ends = true) body) (fuel : Nat) :
    Returns (Tree.Reach.mk ends false).Allows (Eval.doLoop body test fuel) := by
  induction fuel with
  | zero => exact fun s a t h => nomatch h
  | succ fuel ih =>
      have hround : Returns (Tree.Reach.mk ends false).Allows
          (do if ← test then Eval.doLoop body test fuel else return .normal) := by
        refine htest.bind fun b hb => ?_
        cases b with
        | false => exact pure (hb rfl)
        | true => exact ih
      refine hbody.bind fun ending hending => ?_
      cases ending with
      | normal | next => exact hround
      | leave => exact pure (hending rfl)
      | ret v => exact pure trivial

end Eval.Returns

namespace Typing

open Scriptlet.Core (execBlock)
open Scriptlet.Tree (Reach)

section

variable {ctx : Context} {calls : Calls} {fuel : Nat}

/-- The literal `true` is true. -/
theorem Decides.test_of_isTrue {look : Look} {e : Tree.Expr} {c : Core.Expr}
    (h : Decides ctx look e c) (htrue : e.isTrue = true) : c.test calls = pure true := by
  unfold Tree.Expr.isTrue at htrue
  split at htrue
  · next span =>
      obtain rfl := htrue
      cases h with
      | mk he hc =>
          cases he with
          | literal hl =>
              cases hl
              cases hc
              rfl
  · cases htrue

theorem Decides.returns {look : Look} {e : Tree.Expr} {c : Core.Expr}
    (h : Decides ctx look e c) {leaves : Bool} :
    (c.test calls).Returns fun b => b = false → ((true && !e.isTrue) || leaves) = true := by
  cases htrue : e.isTrue with
  | false => exact fun s b t _ _ => rfl
  | true =>
      rw [h.test_of_isTrue htrue]
      exact .pure fun hfalse => by cases hfalse

theorem returns_of_acts {look : Look} {es : List Tree.Expr} {core : List Core.Stmt}
    (h : List.Forall₂ (Acts ctx look) es core) :
    (execBlock calls fuel core).Returns (· = .normal) := by
  induction h with
  | nil =>
      rw [execBlock]
      exact .pure rfl
  | cons hacts _ ih =>
      cases hacts
      simp only [execBlock, Core.Stmt.exec, bind_assoc, pure_bind]
      exact .behind fun _ => ih

theorem DeclareAll.returns {type : Option DataType} {v u : Variables} {ds : List Tree.Declarator}
    {core : List Core.Stmt} (h : DeclareAll ctx type v ds core u) :
    (execBlock calls fuel core).Returns (· = .normal) := by
  induction h with
  | nil =>
      rw [execBlock]
      exact .pure rfl
  | cons _ _ _ ih =>
      simp only [execBlock, Core.Stmt.exec, bind_assoc, pure_bind]
      exact .behind fun _ => .behind fun _ => ih

theorem Initializes.returns {v u : Variables} {init : Tree.ForInit} {core : List Core.Stmt}
    (h : Initializes ctx v init core u) : (execBlock calls fuel core).Returns (· = .normal) := by
  cases h with
  | nothing =>
      rw [execBlock]
      exact .pure rfl
  | locals _ hds => exact hds.returns
  | exprs hacts => exact returns_of_acts hacts

/-- Where a body may leave the loop around it, the end of the loop can be reached. -/
theorem returns_leave {start endless : Bool} {r : Reach} {x : Eval Core.Store Ending}
    (h : x.Returns r.Allows) :
    x.Returns fun ending => ending = .leave → ((start && !endless) || r.leaves) = true := by
  refine h.imp fun ending hallows hleave => ?_
  subst hleave
  have hleaves : r.leaves = true := hallows
  rw [hleaves, Bool.or_true]

variable (calls) (fuel)

mutual

/-- An accepted statement ends as its form allows. -/
theorem StmtElaborates.returns : ∀ (s : Tree.Stmt) {inLoop : Bool} {v u : Variables}
    {core : Core.Stmt}, StmtElaborates ctx inLoop v s core u →
      (core.exec calls fuel).Returns (s.reach true).Allows
  | .block body span, inLoop, v, u, core, h => by
      cases h with
      | block hbody =>
          rw [Core.Stmt.exec, Tree.Stmt.reach]
          exact BlockElaborates.returns body hbody
  | .empty span, inLoop, v, u, core, h => by
      cases h with
      | empty =>
          rw [Core.Stmt.exec, execBlock]
          exact .pure rfl
  | .locals d span, inLoop, v, u, core, h => by
      cases h with
      | locals _ hds =>
          rw [Core.Stmt.exec]
          exact hds.returns.imp fun ending hending => hending ▸ rfl
  | .expr e span, inLoop, v, u, core, h => by
      cases h with
      | expr hacts =>
          cases hacts
          rw [Core.Stmt.exec]
          exact .behind fun _ => .pure rfl
  | .cond condition yes none span, inLoop, v, u, core, h => by
      cases h with
      | condOnly _ hy =>
          have hyes := StmtElaborates.returns yes hy
          rw [Core.Stmt.exec, Tree.Stmt.reach]
          refine .behind fun b => ?_
          cases b with
          | false => exact .pure (Bool.or_true _)
          | true =>
              refine hyes.imp fun ending hallows => ?_
              cases ending with
              | normal => exact Bool.or_true _
              | leave => exact hallows
              | next | ret v => trivial
  | .cond condition yes (some no) span, inLoop, v, u, core, h => by
      cases h with
      | condElse _ hy hn =>
          have hyes := StmtElaborates.returns yes hy
          have hno := StmtElaborates.returns no hn
          rw [Core.Stmt.exec, Tree.Stmt.reach]
          refine .behind fun b => ?_
          cases b with
          | true =>
              refine hyes.imp fun ending hallows => ?_
              cases ending with
              | normal | leave => exact Bool.or_eq_true_iff.2 (.inl hallows)
              | next | ret v => trivial
          | false =>
              refine hno.imp fun ending hallows => ?_
              cases ending with
              | normal | leave => exact Bool.or_eq_true_iff.2 (.inr hallows)
              | next | ret v => trivial
  | .loop condition body span, inLoop, v, u, core, h => by
      cases h with
      | loop hc hb =>
          have hbody := StmtElaborates.returns body hb
          rw [Core.Stmt.exec, Tree.Stmt.reach]
          exact .loop hc.returns (returns_leave hbody) fuel
  | .doLoop body condition span, inLoop, v, u, core, h => by
      cases h with
      | doLoop hb hc =>
          have hbody := StmtElaborates.returns body hb
          rw [Core.Stmt.exec, Tree.Stmt.reach]
          exact .doLoop hc.returns (returns_leave hbody) fuel
  | .forLoop init none steps body span, inLoop, v, u, core, h => by
      cases h with
      | forEver hinit hb _ =>
          have hbody := StmtElaborates.returns body hb
          rw [Core.Stmt.exec, Core.execBlock_append, Core.execBlock_single, Core.Stmt.exec,
            Tree.Stmt.reach]
          refine hinit.returns.bind fun ending hending => ?_
          subst hending
          have htest : (Core.testOf calls none).Returns fun b =>
              b = false → ((true && !true) || (body.reach true).leaves) = true :=
            .pure (a := true) fun hfalse => nomatch hfalse
          exact .loop htest (returns_leave hbody) fuel
  | .forLoop init (some condition) steps body span, inLoop, v, u, core, h => by
      cases h with
      | forWhile hinit hc hb _ =>
          have hbody := StmtElaborates.returns body hb
          rw [Core.Stmt.exec, Core.execBlock_append, Core.execBlock_single, Core.Stmt.exec,
            Tree.Stmt.reach]
          refine hinit.returns.bind fun ending hending => ?_
          subst hending
          exact .loop hc.returns (returns_leave hbody) fuel
  | .ret value span, inLoop, v, u, core, h => by
      cases h with
      | retVoid _ =>
          rw [Core.Stmt.exec]
          exact .pure trivial
      | ret _ _ _ =>
          rw [Core.Stmt.exec]
          exact .behind fun _ => .pure trivial
  | .throw e span, inLoop, v, u, core, h => by
      cases h with
      | throw _ _ =>
          rw [Core.Stmt.exec]
          exact .behind fun _ => .fail _
  | .leave span, inLoop, v, u, core, h => by
      cases h with
      | leave =>
          rw [Core.Stmt.exec]
          exact .pure rfl
  | .next span, inLoop, v, u, core, h => by
      cases h with
      | next =>
          rw [Core.Stmt.exec]
          exact .pure trivial

theorem BlockElaborates.returns : ∀ (body : List Tree.Stmt) {inLoop : Bool} {v u : Variables}
    {core : List Core.Stmt}, BlockElaborates ctx inLoop v body core u →
      (execBlock calls fuel core).Returns (Tree.reachBlock true body).Allows
  | [], inLoop, v, u, core, h => by
      cases h with
      | nil =>
          rw [execBlock]
          exact .pure rfl
  | s :: rest, inLoop, v, u, core, h => by
      cases h with
      | cons hs hrest =>
          have hfirst := StmtElaborates.returns s hs
          have hothers := BlockElaborates.returns rest hrest
          rw [execBlock, Tree.reachBlock]
          refine hfirst.bind fun ending hallows => ?_
          cases ending with
          | normal =>
              have hends : (s.reach true).ends = true := hallows
              rw [hends]
              refine hothers.imp fun ending hallows => ?_
              cases ending with
              | normal => exact hallows
              | leave => exact Bool.or_eq_true_iff.2 (.inr hallows)
              | next | ret v => trivial
          | leave => exact .pure (Bool.or_eq_true_iff.2 (.inl hallows))
          | next | ret v => exact .pure trivial

end

end

end Typing

end Scriptlet
