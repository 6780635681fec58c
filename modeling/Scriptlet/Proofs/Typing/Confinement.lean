import Scriptlet.Proofs.Core.Assembly
import Scriptlet.Proofs.Typing.Elaboration

namespace Scriptlet.Typing

/-!
# Confined statements

In an accepted statement every jump has a loop to go to, and the steps of a loop are expressions.
-/

open Scriptlet.Core (BlockConfined)

section

variable {ctx : Context}

theorem exists_eval_of_acts {look : Look} {es : List Tree.Expr} {core : List Core.Stmt}
    (h : List.Forall₂ (Acts ctx look) es core) :
    ∀ st ∈ core, ∃ e hasValue, st = .eval e hasValue := by
  induction h with
  | nil => exact fun st hst => absurd hst List.not_mem_nil
  | cons hacts _ ih =>
      intro st hst
      rcases List.mem_cons.1 hst with rfl | hst
      · cases hacts
        exact ⟨_, _, rfl⟩
      · exact ih st hst

theorem confined_of_acts {inLoop : Bool} {look : Look} {es : List Tree.Expr}
    {core : List Core.Stmt} (h : List.Forall₂ (Acts ctx look) es core) :
    BlockConfined inLoop core := by
  induction h with
  | nil => exact .nil
  | cons hacts _ ih =>
      cases hacts
      exact .cons .eval ih

theorem DeclareAll.confined {type : Option DataType} {inLoop : Bool} {v u : Variables}
    {ds : List Tree.Declarator} {core : List Core.Stmt} (h : DeclareAll ctx type v ds core u) :
    BlockConfined inLoop core := by
  induction h with
  | nil => exact .nil
  | cons _ _ _ ih => exact .cons .store ih

theorem Initializes.confined {inLoop : Bool} {v u : Variables} {init : Tree.ForInit}
    {core : List Core.Stmt} (h : Initializes ctx v init core u) : BlockConfined inLoop core := by
  cases h with
  | nothing => exact .nil
  | locals _ hds => exact hds.confined
  | exprs hacts => exact confined_of_acts hacts

mutual

theorem StmtElaborates.confined : ∀ (s : Tree.Stmt) {inLoop : Bool} {v u : Variables}
    {core : Core.Stmt}, StmtElaborates ctx inLoop v s core u → core.Confined inLoop
  | .block body span, inLoop, v, u, core, h => by
      cases h with
      | block hbody => exact .block (BlockElaborates.confined body hbody)
  | .empty span, inLoop, v, u, core, h => by
      cases h with
      | empty => exact .block .nil
  | .locals d span, inLoop, v, u, core, h => by
      cases h with
      | locals _ hds => exact .block hds.confined
  | .expr e span, inLoop, v, u, core, h => by
      cases h with
      | expr hacts =>
          cases hacts
          exact .eval
  | .cond condition yes none span, inLoop, v, u, core, h => by
      cases h with
      | condOnly _ hy => exact .condOnly (StmtElaborates.confined yes hy)
  | .cond condition yes (some no) span, inLoop, v, u, core, h => by
      cases h with
      | condElse _ hy hn =>
          exact .condElse (StmtElaborates.confined yes hy) (StmtElaborates.confined no hn)
  | .loop condition body span, inLoop, v, u, core, h => by
      cases h with
      | loop _ hb => exact .loop (StmtElaborates.confined body hb)
  | .doLoop body condition span, inLoop, v, u, core, h => by
      cases h with
      | doLoop hb _ => exact .doLoop (StmtElaborates.confined body hb)
  | .forLoop init condition steps body span, inLoop, v, u, core, h => by
      cases h with
      | forEver hinit hb hsteps | forWhile hinit _ hb hsteps =>
          have hbody := StmtElaborates.confined body hb
          refine .block (hinit.confined.append (.cons (.forLoop hbody ?_) .nil))
          exact exists_eval_of_acts hsteps
  | .ret value span, inLoop, v, u, core, h => by
      cases h <;> exact .ret
  | .throw e span, inLoop, v, u, core, h => by
      cases h with
      | throw _ _ => exact .throw
  | .leave span, inLoop, v, u, core, h => by
      cases h with
      | leave => exact .leave
  | .next span, inLoop, v, u, core, h => by
      cases h with
      | next => exact .next

theorem BlockElaborates.confined : ∀ (body : List Tree.Stmt) {inLoop : Bool} {v u : Variables}
    {core : List Core.Stmt}, BlockElaborates ctx inLoop v body core u → BlockConfined inLoop core
  | [], inLoop, v, u, core, h => by
      cases h with
      | nil => exact .nil
  | s :: rest, inLoop, v, u, core, h => by
      cases h with
      | cons hs hrest =>
          exact .cons (StmtElaborates.confined s hs) (BlockElaborates.confined rest hrest)

end

end

end Scriptlet.Typing
