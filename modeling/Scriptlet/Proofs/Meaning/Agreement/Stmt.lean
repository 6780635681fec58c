import Scriptlet.Proofs.Meaning.Agreement.Expr
import Scriptlet.Proofs.Meaning.Program

namespace Scriptlet.Typing

/-!
# Agreement of statements

An accepted statement has a meaning, and the core statement that belongs to it does the same. Where
the statement comes to its end, the variables that it has declared have the values of their slots
too.
-/

open Scriptlet.Tree (Memory)
open Variables (look_opened)
open Scriptlet.Core (Store execBlock execBlock_append execBlock_single)

/-- What holds of the variables when a statement has ended: a statement that ends in its middle may
not have got to all of its declarations. -/
def Behind (around behind : Look) : Ending → Memory → Store → Prop
  | .normal => Mirrors behind
  | _ => Mirrors around

/-- A statement and its core statement do the same. -/
def Runs (around behind : Look) (x : Eval Memory Ending) (y : Eval Store Ending) : Prop :=
  ∀ m s, Mirrors around m s → Agree (Behind around behind) (x m) (y s)

theorem Mirrors.mono {look outer : Look} {m : Memory} {s : Store} (h : Mirrors outer m s)
    (hsub : ∀ name l, look name = some l → outer name = some l) : Mirrors look m s :=
  ⟨fun name l hl => h.vars name l (hsub name l hl), h.output⟩

theorem Behind.mono {look inner outer : Look} {ending : Ending} {m : Memory} {s : Store}
    (h : Behind inner outer ending m s)
    (hsub : ∀ name l, look name = some l → inner name = some l) :
    Behind look outer ending m s := by
  cases ending with
  | normal => exact h
  | leave | next | ret v => exact Mirrors.mono h hsub

/-- The variable that is declared gets its first value. -/
theorem Declares.mirrors {v u : Variables} {name : String} {t : DataType}
    (h : Declares v name t u) (hv : v.Orderly) {m : Memory} {s : Store}
    (hm : Mirrors v.look m s) (first : Value) :
    Mirrors u.look (m.assign name first) (s.assign v.draft.locals first) where
  vars name' l hl := by
    rw [h.look_eq hv.active] at hl
    rw [Memory.vars_assign, Core.Store.slots_assign]
    by_cases hname : name' = name
    · rw [if_pos hname] at hl
      rw [if_pos hname, ← Option.some.inj hl, if_pos rfl]
    · rw [if_neg hname] at hl
      have hbelow := hv.below _ (Variables.mem_entries_of_look hl)
      have hslot : l.slot ≠ v.draft.locals := UInt16.ne_of_lt hbelow
      rw [if_neg hname, if_neg hslot]
      exact hm.vars name' l hl
  output := hm.output

theorem Declares.declare? {v u : Variables} {name : String} {t : DataType}
    (h : Declares v name t u) (hv : v.Orderly) :
    Tree.declare? v.look.types name t = some u.look.types := by
  have hnone : v.look.types name = none := by rw [Look.types, h.fresh hv.active]; rfl
  rw [Tree.declare?, hnone]
  refine congrArg some (funext fun name' => ?_)
  have hlook := h.look_eq hv.active name'
  have htype : u.look.types name' = (u.look name').map Local.type := rfl
  rw [htype, hlook]
  by_cases hname : name' = name
  · rw [if_pos hname, if_pos hname]
    rfl
  · rw [if_neg hname, if_neg hname]
    rfl

namespace Runs

variable {look inner outer : Look} {x x' : Eval Memory Ending} {y y' : Eval Store Ending}

theorem ofMatches (h : Matches look x y) : Runs look look x y := by
  intro m s hm
  refine (h m s hm).imp fun ending m s hms => ?_
  cases ending <;> exact hms

/-- Behind a scope, only the variables around it are left. -/
theorem forget (h : Runs look inner x y)
    (hsub : ∀ name l, look name = some l → inner name = some l) : Matches look x y := by
  intro m s hm
  refine (h m s hm).imp fun ending m s hms => ?_
  cases ending with
  | normal => exact Mirrors.mono hms hsub
  | leave | next | ret v => exact hms

theorem seq (h : Runs look inner x y) (h' : Runs inner outer x' y')
    (hsub : ∀ name l, look name = some l → inner name = some l) :
    Runs look outer
      (do
        match ← x with
        | .normal => x'
        | ending => return ending)
      (do
        match ← y with
        | .normal => y'
        | ending => return ending) := by
  intro m s hm
  refine (h m s hm).bind fun ending m s hms => ?_
  cases ending with
  | normal =>
      exact (h' m s hms).imp fun ending m s hms => hms.mono hsub
  | leave | next | ret v => exact ⟨rfl, hms⟩

end Runs

namespace Matches

variable {look : Look} {test : Eval Memory Bool} {test' : Eval Store Bool}
  {body : Eval Memory Ending} {body' : Eval Store Ending} {advance : Eval Memory Unit}
  {advance' : Eval Store Unit}

theorem loop (htest : Matches look test test') (hbody : Matches look body body')
    (hadvance : Matches look advance advance') (fuel : Nat) :
    Matches look (Eval.loop test body advance fuel) (Eval.loop test' body' advance' fuel) := by
  induction fuel with
  | zero => exact fun m s hm => trivial
  | succ fuel ih =>
      refine htest.bind (Matches.ite ?_ (.pure Ending.normal))
      refine hbody.bind fun ending => ?_
      cases ending with
      | normal | next => exact hadvance.bind fun _ => ih
      | leave => exact .pure Ending.normal
      | ret v => exact .pure (Ending.ret v)

theorem doLoop (hbody : Matches look body body') (htest : Matches look test test') (fuel : Nat) :
    Matches look (Eval.doLoop body test fuel) (Eval.doLoop body' test' fuel) := by
  induction fuel with
  | zero => exact fun m s hm => trivial
  | succ fuel ih =>
      have hround : Matches look
          (do if ← test then Eval.doLoop body test fuel else return .normal)
          (do if ← test' then Eval.doLoop body' test' fuel else return .normal) :=
        htest.bind (ih.ite (.pure Ending.normal))
      refine hbody.bind fun ending => ?_
      cases ending with
      | normal | next => exact hround
      | leave => exact .pure Ending.normal
      | ret v => exact .pure (Ending.ret v)

end Matches

section

variable {ctx : Context} (calls : Calls) (fuel : Nat)

theorem Decides.test? {look : Look} (hsep : Separate look) {e : Tree.Expr} {c : Core.Expr}
    (h : Decides ctx look e c) :
    ∃ test, e.test? ctx calls look.types = some test ∧ Matches look test (c.test calls) := by
  cases h with
  | mk he hc =>
      obtain ⟨m, hmeaning, hrenders⟩ := Elaborates.renders calls hsep e he
      obtain ⟨test, htest, hmatch⟩ := hrenders.test? hc
      refine ⟨test, ?_, hmatch⟩
      rw [Tree.Expr.test?, hmeaning]
      exact htest

theorem actions? {look : Look} (hsep : Separate look) {es : List Tree.Expr}
    {core : List Core.Stmt} (h : List.Forall₂ (Acts ctx look) es core) :
    ∃ run, Tree.actions? ctx calls look.types es = some run ∧
      Matches look
        (do
          run
          return Ending.normal)
        (execBlock calls fuel core) := by
  induction h with
  | nil =>
      refine ⟨_, rfl, ?_⟩
      rw [execBlock, pure_bind]
      exact .pure Ending.normal
  | @cons e _ es core he _ ih =>
      cases he with
      | mk he =>
          obtain ⟨m, hmeaning, hrenders⟩ := Elaborates.renders calls hsep e he
          obtain ⟨rest, hrest, hmatch⟩ := ih
          refine ⟨_, by rw [Tree.actions?, hmeaning, hrest]; rfl, ?_⟩
          simp only [execBlock, Core.Stmt.exec, bind_assoc, pure_bind]
          exact hrenders.value.bind fun _ => hmatch

/-- The steps of a loop. -/
theorem steps? {look : Look} (hsep : Separate look) {es : List Tree.Expr}
    {core : List Core.Stmt} (h : List.Forall₂ (Acts ctx look) es core) :
    ∃ run, Tree.actions? ctx calls look.types es = some run ∧
      Matches look run (do
        let _ ← execBlock calls fuel core
        return ()) := by
  obtain ⟨run, hrun, hmatch⟩ := actions? calls fuel hsep h
  refine ⟨run, hrun, ?_⟩
  have hunit : run = (do
      let _ ← (do
        run
        return Ending.normal : Eval Memory Ending)
      return ()) := by
    rw [bind_assoc]
    simp only [pure_bind]
    exact (bind_pure run).symm
  rw [hunit]
  exact hmatch.bind fun _ => .pure ()

theorem States.statedType? {r : Option Tree.TypeRef} {type : Option DataType}
    (h : States ctx r type) : Tree.statedType? ctx r = some type := by
  cases h with
  | inferred => rfl
  | type hr hne =>
      rw [Tree.statedType?, hr]
      split
      · next heq => exact absurd (Except.ok.inj heq) hne
      · next heq => cases heq
      · next heq => rw [Except.ok.inj heq]

theorem Begins.begin? {look : Look} (hsep : Separate look) {type : Option DataType}
    {d : Tree.Declarator} {t : DataType} {e : Core.Expr} (h : Begins ctx look type d.value t e) :
    ∃ value, d.begin? ctx calls look.types type = some (t, value) ∧
      Matches look value (e.eval calls) := by
  obtain ⟨name, initial⟩ := d
  dsimp only at h
  cases h with
  | stated he hc =>
      obtain ⟨m, hmeaning, hrenders⟩ := Elaborates.renders calls hsep _ he
      obtain ⟨value, hvalue, hmatch⟩ := hrenders.as? hc
      refine ⟨value, ?_, hmatch⟩
      simp only [Tree.Declarator.begin?, hmeaning, Option.bind_eq_bind, Option.bind_some, hvalue,
        Option.pure_def]
  | default =>
      refine ⟨_, rfl, ?_⟩
      rw [Core.Expr.eval]
      exact .pure _
  | inferred he ht hne =>
      obtain ⟨m, hmeaning, hrenders⟩ := Elaborates.renders calls hsep _ he
      refine ⟨m.value, ?_, hrenders.value⟩
      simp only [Tree.Declarator.begin?, hmeaning, Option.bind_eq_bind, Option.bind_some,
        hrenders.type_eq, ht, StaticType.dataType?_of, if_neg hne, Option.pure_def]

theorem DeclareAll.declareAll? {type : Option DataType} {v u : Variables}
    {ds : List Tree.Declarator} {core : List Core.Stmt} (h : DeclareAll ctx type v ds core u)
    (hv : v.Orderly) (hspared : Spared (Core.blockDeclared core)) :
    ∃ run, Tree.declareAll? ctx calls type v.look.types ds = some (u.look.types, run) ∧
      Runs v.look u.look
        (do
          run
          return Ending.normal)
        (execBlock calls fuel core) := by
  induction h with
  | nil =>
      refine ⟨_, rfl, ?_⟩
      rw [execBlock, pure_bind]
      exact .ofMatches (.pure Ending.normal)
  | @cons v d t e u ds rest w hbegins hdeclares _ ih =>
      obtain ⟨hfirst, hrest⟩ := spared_append hspared
      have hslot : v.draft.locals ≠ 0xFFFF := hfirst _ (by simp [Core.Stmt.declared])
      obtain ⟨value, hvalue, hmatch⟩ := hbegins.begin? calls hv.separate_look
      obtain ⟨others, hothers, hruns⟩ := ih (hdeclares.orderly hv hslot) hrest
      have hdeclare := hdeclares.declare? hv
      refine ⟨do
        let first ← value
        Eval.update (·.assign d.name.name first)
        others, ?_, ?_⟩
      · rw [Tree.declareAll?, hvalue]
        simp only [Option.bind_eq_bind, Option.bind_some, hdeclare, hothers, Option.pure_def]
      · simp only [execBlock, Core.Stmt.exec, bind_assoc, pure_bind]
        intro m s hm
        refine (hmatch m s hm).bind fun first m s hm => ?_
        have hassigned := hdeclares.mirrors hv hm first
        have hrest := hruns _ _ hassigned
        exact hrest.imp fun ending m s hms => hms.mono hdeclares.grows.look

theorem Initializes.meaning? {v u : Variables} {init : Tree.ForInit} {core : List Core.Stmt}
    (h : Initializes ctx v init core u) (hv : v.Orderly)
    (hspared : Spared (Core.blockDeclared core)) :
    ∃ run, init.meaning? ctx calls v.look.types = some (u.look.types, run) ∧
      Runs v.look u.look
        (do
          run
          return Ending.normal)
        (execBlock calls fuel core) := by
  cases h with
  | nothing =>
      refine ⟨_, rfl, ?_⟩
      rw [execBlock, pure_bind]
      exact .ofMatches (.pure Ending.normal)
  | locals hstates hds =>
      obtain ⟨run, hrun, hruns⟩ := hds.declareAll? calls fuel hv hspared
      refine ⟨run, ?_, hruns⟩
      rw [Tree.ForInit.meaning?, Tree.LocalDecl.meaning?, hstates.statedType?]
      exact hrun
  | exprs hes =>
      obtain ⟨run, hrun, hmatch⟩ := actions? calls fuel hv.separate_look hes
      refine ⟨run, ?_, .ofMatches hmatch⟩
      rw [Tree.ForInit.meaning?, hrun]
      rfl

/-- A `for` statement in the scope of its start. -/
theorem Runs.forLoop {look inner : Look} {start advance : Eval Memory Unit}
    {test : Eval Memory Bool} {body : Eval Memory Ending} {first steps : List Core.Stmt}
    {c : Option Core.Expr} {b : Core.Stmt}
    (hstart : Runs look inner
      (do
        start
        return Ending.normal)
      (execBlock calls fuel first))
    (htest : Matches inner test (Core.testOf calls c))
    (hbody : Matches inner body (b.exec calls fuel))
    (hadvance : Matches inner advance (do
      let _ ← execBlock calls fuel steps
      return ()))
    (hsub : ∀ name l, look name = some l → inner name = some l) :
    Matches look
      (do
        start
        Eval.loop test body advance fuel)
      ((Core.Stmt.block (first ++ [.forLoop c b steps])).exec calls fuel) := by
  have hloop := Runs.ofMatches (htest.loop hbody hadvance fuel)
  have hseq := hstart.seq hloop hsub
  simp only [bind_assoc, pure_bind] at hseq
  rw [Core.Stmt.exec, execBlock_append, execBlock_single, Core.Stmt.exec]
  exact hseq.forget hsub

/-- A `for` statement means what its core statement does, if its test and its body do. -/
theorem Initializes.meaning?_forLoop {v between inner : Variables} {init : Tree.ForInit}
    {condition : Option Tree.Expr} {acts : List Tree.Expr} {body : Tree.Stmt} {span : Text.Span}
    {first steps : List Core.Stmt} {c : Option Core.Expr} {b : Core.Stmt}
    (hinit : Initializes ctx v.opened init first between) (hv : v.Orderly)
    (hspared : Spared (Core.Stmt.block (first ++ [.forLoop c b steps])).declared)
    (hgrows : Variables.Grows between.opened inner)
    (htest : ∃ test, Tree.testOf? ctx calls between.look.types condition = some test ∧
      Matches between.look test (Core.testOf calls c))
    (hbody : ∃ run, body.meaning? ctx calls fuel between.look.types =
        some (inner.look.types, run) ∧
      Runs between.look inner.look run (b.exec calls fuel))
    (hacts : List.Forall₂ (Acts ctx inner.closed.look) acts steps) :
    ∃ run, (Tree.Stmt.forLoop init condition acts body span).meaning? ctx calls fuel
        v.look.types = some (inner.closed.closed.look.types, run) ∧
      Runs v.look inner.closed.closed.look run
        ((Core.Stmt.block (first ++ [.forLoop c b steps])).exec calls fuel) := by
  have hfirst := (spared_forLoop hspared).1
  have hbetween := hinit.orderly hv.opened hfirst
  rw [hgrows.look_closed] at hacts
  obtain ⟨start, hstart, hruns⟩ := hinit.meaning? calls fuel hv.opened hfirst
  obtain ⟨test, htest, hdecide⟩ := htest
  obtain ⟨run, hrun, hround⟩ := hbody
  obtain ⟨advance, hadvance, hmatch⟩ := steps? calls fuel hbetween.separate_look hacts
  have hloop := hruns.forLoop calls fuel hdecide (hround.forget hgrows.look) hmatch
    hinit.grows.look
  rw [look_opened] at hstart
  rw [(hinit.grows.trans hgrows.closed).look_closed, Tree.Stmt.meaning?, hstart]
  simp only [Option.bind_eq_bind, Option.bind_some, htest, hrun, hadvance]
  exact ⟨_, rfl, .ofMatches hloop⟩

mutual

/-- An elaborated statement means what its core statement does. -/
theorem StmtElaborates.meaning? : ∀ (s : Tree.Stmt) {inLoop : Bool} {v u : Variables}
    {core : Core.Stmt}, StmtElaborates ctx inLoop v s core u → v.Orderly → Spared core.declared →
      ∃ run, s.meaning? ctx calls fuel v.look.types = some (u.look.types, run) ∧
        Runs v.look u.look run (core.exec calls fuel)
  | .block body span, inLoop, v, u, core, h, hv, hspared => by
      cases h with
      | block hbody =>
          have hgrows := BlockElaborates.grows body hbody
          obtain ⟨run, hrun, hruns⟩ := BlockElaborates.meaning? body hbody hv.opened hspared
          rw [look_opened] at hrun
          rw [hgrows.look_closed, Tree.Stmt.meaning?, hrun, Core.Stmt.exec]
          exact ⟨run, rfl, .ofMatches (hruns.forget hgrows.look)⟩
  | .empty span, inLoop, v, u, core, h, hv, hspared => by
      cases h with
      | empty =>
          rw [Tree.Stmt.meaning?, Core.Stmt.exec, execBlock]
          exact ⟨_, rfl, .ofMatches (.pure Ending.normal)⟩
  | .locals d span, inLoop, v, u, core, h, hv, hspared => by
      cases h with
      | locals hstates hds =>
          obtain ⟨run, hrun, hruns⟩ := hds.declareAll? calls fuel hv hspared
          rw [Tree.Stmt.meaning?, Tree.LocalDecl.meaning?, hstates.statedType?, Core.Stmt.exec]
          simp only [Option.bind_eq_bind, Option.bind_some, hrun]
          exact ⟨_, rfl, hruns⟩
  | .expr e span, inLoop, v, u, core, h, hv, hspared => by
      cases h with
      | expr hacts =>
          cases hacts with
          | mk he =>
              obtain ⟨m, hmeaning, hrenders⟩ := Elaborates.renders calls hv.separate_look e he
              rw [Tree.Stmt.meaning?, hmeaning, Core.Stmt.exec]
              exact ⟨_, rfl, .ofMatches (hrenders.value.bind fun _ => .pure Ending.normal)⟩
  | .cond condition yes none span, inLoop, v, u, core, h, hv, hspared => by
      cases h with
      | condOnly hc hy =>
          have hgrows := StmtElaborates.grows yes hy
          obtain ⟨test, htest, hmatch⟩ := hc.test? calls hv.separate_look
          obtain ⟨first, hfirst, hruns⟩ := StmtElaborates.meaning? yes hy hv.opened hspared
          rw [look_opened] at hfirst
          rw [hgrows.look_closed, Tree.Stmt.meaning?, htest, Core.Stmt.exec]
          simp only [Option.bind_eq_bind, Option.bind_some, hfirst]
          have hyes := hruns.forget hgrows.look
          exact ⟨_, rfl, .ofMatches (hmatch.bind (hyes.ite (.pure Ending.normal)))⟩
  | .cond condition yes (some no) span, inLoop, v, u, core, h, hv, hspared => by
      cases h with
      | @condElse _ _ _ _ _ _ c y u n w hc hy hn =>
          have hgrows := StmtElaborates.grows yes hy
          have hgrows' := StmtElaborates.grows no hn
          obtain ⟨hspared, hspared'⟩ := spared_append hspared
          obtain ⟨test, htest, hmatch⟩ := hc.test? calls hv.separate_look
          obtain ⟨first, hfirst, hruns⟩ := StmtElaborates.meaning? yes hy hv.opened hspared
          obtain ⟨second, hsecond, hruns'⟩ :=
            StmtElaborates.meaning? no hn (hgrows.orderly_closed hv).opened hspared'
          rw [look_opened] at hfirst
          rw [look_opened, hgrows.look_closed] at hsecond hruns'
          rw [hgrows'.look_closed, hgrows.look_closed, Tree.Stmt.meaning?, htest, Core.Stmt.exec]
          simp only [Option.bind_eq_bind, Option.bind_some, hfirst, hsecond]
          have hsub : ∀ name l, v.look name = some l → w.look name = some l := by
            intro name l hl
            have hclosed := hgrows.closed.look name l hl
            exact hgrows'.look name l hclosed
          have hyes := hruns.forget hgrows.look
          have hno := hruns'.forget hsub
          exact ⟨_, rfl, .ofMatches (hmatch.bind (hyes.ite hno))⟩
  | .loop condition body span, inLoop, v, u, core, h, hv, hspared => by
      cases h with
      | loop hc hb =>
          have hgrows := StmtElaborates.grows body hb
          obtain ⟨test, htest, hmatch⟩ := hc.test? calls hv.separate_look
          obtain ⟨run, hrun, hruns⟩ := StmtElaborates.meaning? body hb hv.opened hspared
          have hround := hruns.forget hgrows.look
          rw [look_opened] at hrun
          rw [hgrows.look_closed, Tree.Stmt.meaning?, htest, Core.Stmt.exec]
          simp only [Option.bind_eq_bind, Option.bind_some, hrun]
          exact ⟨_, rfl, .ofMatches (hmatch.loop hround (.pure ()) fuel)⟩
  | .doLoop body condition span, inLoop, v, u, core, h, hv, hspared => by
      cases h with
      | doLoop hb hc =>
          have hgrows := StmtElaborates.grows body hb
          rw [hgrows.look_closed] at hc
          obtain ⟨test, htest, hmatch⟩ := hc.test? calls hv.separate_look
          obtain ⟨run, hrun, hruns⟩ := StmtElaborates.meaning? body hb hv.opened hspared
          have hround := hruns.forget hgrows.look
          rw [look_opened] at hrun
          rw [hgrows.look_closed, Tree.Stmt.meaning?, hrun, Core.Stmt.exec]
          simp only [Option.bind_eq_bind, Option.bind_some, htest]
          exact ⟨_, rfl, .ofMatches (hround.doLoop hmatch fuel)⟩
  | .forLoop init none steps body span, inLoop, v, u, core, h, hv, hspared => by
      cases h with
      | forEver hinit hb hacts =>
          obtain ⟨hfirst, hspared'⟩ := spared_forLoop hspared
          have hinner := (hinit.orderly hv.opened hfirst).opened
          have hbody := StmtElaborates.meaning? body hb hinner hspared'
          exact hinit.meaning?_forLoop calls fuel hv hspared (StmtElaborates.grows body hb)
            ⟨_, rfl, .pure true⟩ hbody hacts
  | .forLoop init (some condition) steps body span, inLoop, v, u, core, h, hv, hspared => by
      cases h with
      | forWhile hinit hc hb hacts =>
          obtain ⟨hfirst, hspared'⟩ := spared_forLoop hspared
          have hbetween := hinit.orderly hv.opened hfirst
          have hbody := StmtElaborates.meaning? body hb hbetween.opened hspared'
          exact hinit.meaning?_forLoop calls fuel hv hspared (StmtElaborates.grows body hb)
            (hc.test? calls hbetween.separate_look) hbody hacts
  | .ret none span, inLoop, v, u, core, h, hv, hspared => by
      cases h with
      | retVoid hresult =>
          rw [Tree.Stmt.meaning?, if_pos hresult, Core.Stmt.exec]
          exact ⟨_, rfl, .ofMatches (.pure (Ending.ret .void))⟩
  | .ret (some e) span, inLoop, v, u, core, h, hv, hspared => by
      cases h with
      | ret _ he hc =>
          obtain ⟨m, hmeaning, hrenders⟩ := Elaborates.renders calls hv.separate_look e he
          obtain ⟨value, hvalue, hmatch⟩ := hrenders.as? hc
          rw [Tree.Stmt.meaning?, hmeaning, Core.Stmt.exec]
          simp only [Option.bind_eq_bind, Option.bind_some, hvalue]
          exact ⟨_, rfl, .ofMatches (hmatch.bind fun v => .pure (Ending.ret v))⟩
  | .throw e span, inLoop, v, u, core, h, hv, hspared => by
      cases h with
      | throw he _ =>
          obtain ⟨m, hmeaning, hrenders⟩ := Elaborates.renders calls hv.separate_look e he
          rw [Tree.Stmt.meaning?, hmeaning, Core.Stmt.exec]
          exact ⟨_, rfl, .ofMatches (hrenders.value.bind fun v => .ofExcept (.error _))⟩
  | .leave span, inLoop, v, u, core, h, hv, hspared => by
      cases h with
      | leave =>
          rw [Tree.Stmt.meaning?, Core.Stmt.exec]
          exact ⟨_, rfl, .ofMatches (.pure Ending.leave)⟩
  | .next span, inLoop, v, u, core, h, hv, hspared => by
      cases h with
      | next =>
          rw [Tree.Stmt.meaning?, Core.Stmt.exec]
          exact ⟨_, rfl, .ofMatches (.pure Ending.next)⟩

theorem BlockElaborates.meaning? : ∀ (body : List Tree.Stmt) {inLoop : Bool} {v u : Variables}
    {core : List Core.Stmt}, BlockElaborates ctx inLoop v body core u → v.Orderly →
      Spared (Core.blockDeclared core) →
        ∃ run, Tree.blockMeaning? ctx calls fuel v.look.types body = some (u.look.types, run) ∧
          Runs v.look u.look run (execBlock calls fuel core)
  | [], inLoop, v, u, core, h, hv, hspared => by
      cases h with
      | nil =>
          rw [Tree.blockMeaning?, execBlock]
          exact ⟨_, rfl, .ofMatches (.pure Ending.normal)⟩
  | s :: rest, inLoop, v, u, core, h, hv, hspared => by
      cases h with
      | cons hs hrest =>
          obtain ⟨hfirst, hspared'⟩ := spared_append hspared
          obtain ⟨run, hrun, hruns⟩ := StmtElaborates.meaning? s hs hv hfirst
          have hu := hs.orderly hv hfirst
          obtain ⟨others, hothers, hruns'⟩ := BlockElaborates.meaning? rest hrest hu hspared'
          rw [Tree.blockMeaning?, hrun, execBlock]
          simp only [Option.bind_eq_bind, Option.bind_some, hothers]
          exact ⟨_, rfl, hruns.seq hruns' (StmtElaborates.grows s hs).look⟩

end

end

end Scriptlet.Typing
