import Scriptlet.Proofs.Core.Simulation

namespace Scriptlet.Core

/-!
# The machine runs core statements

A run through the code of a statement comes to its end, to one of the two places of the loop around
it, or out of the method. Between statements the operand stack is as it was when the method was
entered, so returning cuts nothing off.
-/

open Code (Instr Literal Handle)
open Machine (Program Frame State Step Fault ConformAll Follows Lasts landing leave step execute)

section

variable {p : Program} {limit n : Nat} {a : Activation} {position : Nat} {stack : Array Value}
  {s : Store}

/-- Where a run is when a statement has ended. -/
abbrev ended (a : Activation) (stack : Array Value) (stop leaving again : Nat) :
    Ending → Store → Step :=
  landing (fun u => .next (a.state stop stack u)) (fun u => .next (a.state leaving stack u))
    (fun u => .next (a.state again stack u)) fun v u => returned stack a.rest v u.output

theorem shrink_of_size {stack : Array Value} {base : Nat} (h : stack.size = base) :
    stack.shrink base = stack := by
  subst h
  simp

theorem leave_value (hstack : stack.size = a.base) {v : Value} (hv : v ≠ .void) :
    leave (a.frame position s) a.rest stack s.output (some v) =
      returned stack a.rest v s.output := by
  unfold leave returned
  cases a.rest with
  | nil => rfl
  | cons frame rest =>
      dsimp only [Activation.frame]
      rw [shrink_of_size hstack, pushed_of_ne hv]

theorem leave_void (hstack : stack.size = a.base) :
    leave (a.frame position s) a.rest stack s.output none =
      returned stack a.rest .void s.output := by
  unfold leave returned
  cases a.rest with
  | nil => rfl
  | cons frame rest =>
      dsimp only [Activation.frame]
      rw [shrink_of_size hstack, pushed]

theorem step_ret (hm : p.method? a.handle = some a.method) (hstack : stack.size = a.base)
    (hi : a.method.code[position]? = some .ret) {v : Value} (hv : v ≠ .void) :
    step p limit (a.state position (stack.push v) s) = returned stack a.rest v s.output := by
  rw [step_state hm hi]
  simp only [execute, Machine.withTop, Array.back?_push, Array.pop_push]
  exact leave_value hstack hv

theorem step_retVoid (hm : p.method? a.handle = some a.method) (hstack : stack.size = a.base)
    (hi : a.method.code[position]? = some .retVoid) :
    step p limit (a.state position stack s) = returned stack a.rest .void s.output := by
  rw [step_state hm hi]
  exact leave_void hstack

/-- The end of the code is a return without a value. -/
theorem step_end (hm : p.method? a.handle = some a.method) (hstack : stack.size = a.base)
    (hi : a.method.code[position]? = none) :
    step p limit (a.state position stack s) = returned stack a.rest .void s.output := by
  simp only [step, Activation.state, Activation.frame, hm, hi]
  exact leave_void hstack

theorem step_throw (hm : p.method? a.handle = some a.method)
    (hi : a.method.code[position]? = some .throw) (v : Value) :
    step p limit (a.state position (stack.push v) s) =
      .failed (Machine.throwFault v) s.output := by
  rw [step_state hm hi]
  simp only [execute, Machine.withTop, Array.back?_push]

theorem after_jump (hm : p.method? a.handle = some a.method) {target : UInt32}
    (hi : a.method.code[position]? = some (.jump target)) :
    Machine.after p limit 1 (.next (a.state position stack s)) =
      .next (a.state target.toNat stack s) := by
  rw [Machine.after_one, step_jump hm hi]

variable {sigs : Interface} {calls : Calls} {vars : List Local}

/-- Running a condition, up to the jump that it decides. -/
theorem Expr.follows_test (hset : Setting p limit n sigs calls a) (hp : Proper vars) {e : Expr}
    {start stop : Nat} (stack : Array Value)
    (h : e.Laid a.method.code a.method.literals start stop)
    (he : e.HasType sigs vars (.of .bool)) (hs : Holds vars s) :
    Follows p limit n (.next (a.state start stack s)) Store.output
      (fun b u => .next (a.state stop (stack.push (.bool b)) u)) (e.test calls s) :=
  (Expr.follows hset hp e stack h he s hs).bind (Expr.ensures hset.sound hp.distinct e he hs)
    fun _ _ hens => follows_condition hens.1

/-- Dropping the value of an expression that has one. -/
theorem follows_drop (hset : Setting p limit n sigs calls a) {t : StaticType} {stop : Nat}
    (hi : Needed a.method.code position (if t != .of .void then .pop else .nop) stop) {v : Value}
    (hv : v.ConformsTo t) (leaving again : Nat) :
    Follows p limit n (behind a position stack v s) Store.output
      (ended a stack stop leaving again) ((return .normal : Eval Store Ending) s) := by
  by_cases ht : t = .of .void
  · subst ht
    obtain rfl : v = .void := hv
    obtain rfl : stop = position := (needed_nop _ _ _).1 hi
    exact .here rfl
  · rw [if_pos (by simpa using ht), needed_iff (by simp)] at hi
    obtain ⟨hi, rfl⟩ := hi
    rw [behind, pushed_of_ne (hv.ne_void ht)]
    exact .step (step_pop hset.method hi v) (.here rfl)

/-- A conditional jump goes on behind it or leaves for its target. -/
theorem decide_jumpIfFalse (hm : p.method? a.handle = some a.method) {target : UInt32}
    (hi : a.method.code[position]? = some (.jumpIfFalse target)) (b : Bool) :
    step p limit (a.state position (stack.push (.bool b)) s) =
      if b then .next (a.state (position + 1) stack s)
      else .next (a.state target.toNat stack s) := by
  rw [step_jumpIfFalse hm hi]
  cases b <;> rfl

theorem decide_jumpIfTrue (hm : p.method? a.handle = some a.method) {target : UInt32}
    (hi : a.method.code[position]? = some (.jumpIfTrue target)) (b : Bool) :
    step p limit (a.state position (stack.push (.bool b)) s) =
      if b then .next (a.state target.toNat stack s)
      else .next (a.state (position + 1) stack s) := by
  rw [step_jumpIfTrue hm hi]
  cases b <;> rfl

/-- The steps of a loop come to their end, so a run through their code reaches what is behind it. -/
theorem follows_steps (hset : Setting p limit n sigs calls a) (hp : Proper vars)
    {steps : List Stmt} (hsteps : ∀ st ∈ steps, st.IsAction sigs vars) (hs : Holds vars s)
    {stop leaving again : Nat}
    (h : Follows p limit n (.next (a.state position stack s)) Store.output
      (ended a stack stop leaving again) (execBlock calls n steps s)) :
    Follows p limit n (.next (a.state position stack s)) Store.output
      (fun _ u => .next (a.state stop stack u))
      ((do
        let _ ← execBlock calls n steps
        return () : Eval Store Unit) s) := by
  refine h.bind (ensures_actions hset.sound hp.distinct n hsteps hs) ?_
  rintro _ u ⟨rfl, hu⟩
  exact .here rfl

/-! ### Statements, one by one -/

/-- Runs through the code of a statement follow its execution, whatever the variables hold. -/
def Stmt.Traced (p : Program) (limit n : Nat) (a : Activation) (calls : Calls) (vars : List Local)
    (stack : Array Value) (leaving again start stop : Nat) (st : Stmt) : Prop :=
  ∀ s, Holds vars s → Follows p limit n (.next (a.state start stack s)) Store.output
    (ended a stack stop leaving again) (st.exec calls n s)

section

variable {result : DataType} {inner inner' : List Local} {stack : Array Value}
  {leaving again start mid last : Nat} {e test : Expr} {body yes no : Stmt} {steps : List Stmt}
  {slot : UInt16} {type : StaticType}

theorem Stmt.traced_store (hset : Setting p limit n sigs calls a) (hp : Proper vars)
    (he : e.Laid a.method.code a.method.literals start mid)
    (hi : a.method.code[mid]? = some (.store slot)) {t : DataType} (hvoid : t ≠ .void)
    (het : e.HasType sigs vars (.of t)) :
    (Stmt.store slot e).Traced p limit n a calls vars stack leaving again start (mid + 1) := by
  intro s hs
  rw [Stmt.exec]
  refine (Expr.follows hset hp e stack he het s hs).bind
    (Expr.ensures hset.sound hp.distinct e het hs) ?_
  rintro v u ⟨hv, hu⟩
  rw [behind, pushed_of_ne (Value.Conforms.ne_void hv hvoid)]
  exact .step (step_store hset.method hi v) (.here rfl)

theorem Stmt.traced_eval (hset : Setting p limit n sigs calls a) (hp : Proper vars) {stop : Nat}
    (he : e.Laid a.method.code a.method.literals start mid)
    (hi : Needed a.method.code mid (if type != .of .void then .pop else .nop) stop)
    (het : e.HasType sigs vars type) :
    (Stmt.eval e (type != .of .void)).Traced p limit n a calls vars stack leaving again start
      stop := by
  intro s hs
  rw [Stmt.exec]
  refine (Expr.follows hset hp e stack he het s hs).bind
    (Expr.ensures hset.sound hp.distinct e het hs) ?_
  rintro v u ⟨hv, hu⟩
  exact follows_drop hset hi hv leaving again

theorem Stmt.traced_condOnly (hset : Setting p limit n sigs calls a) (hp : Proper vars)
    {target : UInt32} (hc : test.Laid a.method.code a.method.literals start mid)
    (hno : a.method.code[mid]? = some (.jumpIfFalse target))
    (hct : test.HasType sigs vars (.of .bool))
    (hyes : yes.Traced p limit n a calls vars stack leaving again (mid + 1) target.toNat) :
    (Stmt.cond test yes none).Traced p limit n a calls vars stack leaving again start
      target.toNat := by
  intro s hs
  rw [Stmt.exec]
  refine (Expr.follows_test hset hp stack hc hct hs).bind
    (Expr.ensures_test hset.sound hp.distinct hct s hs) fun b u hu => ?_
  refine .step (step_jumpIfFalse hset.method hno b) ?_
  cases b with
  | true => exact hyes u hu
  | false => exact .here rfl

theorem Stmt.traced_condElse (hset : Setting p limit n sigs calls a) (hp : Proper vars)
    {toNo toEnd : UInt32} (hc : test.Laid a.method.code a.method.literals start mid)
    (hno : a.method.code[mid]? = some (.jumpIfFalse toNo))
    (hend : a.method.code[last]? = some (.jump toEnd)) (hto : toNo.toNat = last + 1)
    (hct : test.HasType sigs vars (.of .bool))
    (hyes : yes.Traced p limit n a calls vars stack leaving again (mid + 1) last)
    (helse : no.Traced p limit n a calls vars stack leaving again (last + 1) toEnd.toNat) :
    (Stmt.cond test yes (some no)).Traced p limit n a calls vars stack leaving again start
      toEnd.toNat := by
  intro s hs
  rw [Stmt.exec]
  refine (Expr.follows_test hset hp stack hc hct hs).bind
    (Expr.ensures_test hset.sound hp.distinct hct s hs) fun b u hu => ?_
  refine .step (step_jumpIfFalse hset.method hno b) ?_
  cases b with
  | true =>
      refine (hyes u hu).extend fun ending w => ?_
      cases ending with
      | normal => exact ⟨1, after_jump hset.method hend⟩
      | leave | next | ret v => exact ⟨0, rfl⟩
  | false =>
      rw [if_neg Bool.false_ne_true, hto]
      exact helse u hu

theorem Stmt.traced_loop (hset : Setting p limit n sigs calls a) (hp : Proper vars)
    {exit back : UInt32} (hc : test.Laid a.method.code a.method.literals start mid)
    (hno : a.method.code[mid]? = some (.jumpIfFalse exit))
    (hback : a.method.code[last]? = some (.jump back)) (htop : back.toNat = start)
    (hexit : exit.toNat = last + 1) (hct : test.HasType sigs vars (.of .bool))
    (hbt : body.HasType sigs result true vars inner)
    (hbody : body.Traced p limit n a calls vars stack (last + 1) start (mid + 1) last) :
    (Stmt.loop test body).Traced p limit n a calls vars stack leaving again start (last + 1) := by
  intro s hs
  rw [Stmt.exec]
  have hdecide : ∀ b u, Holds vars u →
      step p limit (a.state mid (stack.push (.bool b)) u) =
        if b then .next (a.state (mid + 1) stack u) else .next (a.state (last + 1) stack u) :=
    fun b u _ => hexit ▸ decide_jumpIfFalse hset.method hno b
  -- The jump back is behind the body, so it is taken only when the body ends normally.
  have hround : ∀ u, Holds vars u →
      Follows p limit n (.next (a.state (mid + 1) stack u)) Store.output
        (ended a stack start (last + 1) start) (body.exec calls n u) := by
    intro u hu
    refine (hbody u hu).extend fun ending w => ?_
    cases ending with
    | normal => exact ⟨1, htop ▸ after_jump hset.method hback⟩
    | leave | next | ret v => exact ⟨0, rfl⟩
  exact Follows.loop (fun u hu => Expr.follows_test hset hp stack hc hct hu)
    (Expr.ensures_test hset.sound hp.distinct hct) hdecide hround
    (Stmt.ensures_inside hset.sound n hbt hp) (fun u hu => .here rfl) (fun u hu => hu)
    (Nat.le_refl n) hs _ _

theorem Stmt.traced_doLoop (hset : Setting p limit n sigs calls a) (hp : Proper vars)
    {back : UInt32} (hc : test.Laid a.method.code a.method.literals mid last)
    (hback : a.method.code[last]? = some (.jumpIfTrue back)) (htop : back.toNat = start)
    (hct : test.HasType sigs vars (.of .bool)) (hbt : body.HasType sigs result true vars inner)
    (hbody : body.Traced p limit n a calls vars stack (last + 1) mid start mid) :
    (Stmt.doLoop body test).Traced p limit n a calls vars stack leaving again start
      (last + 1) := by
  intro s hs
  rw [Stmt.exec]
  have hdecide : ∀ b u, Holds vars u →
      step p limit (a.state last (stack.push (.bool b)) u) =
        if b then .next (a.state start stack u) else .next (a.state (last + 1) stack u) :=
    fun b u _ => htop ▸ decide_jumpIfTrue hset.method hback b
  exact Follows.doLoop hbody (Stmt.ensures_inside hset.sound n hbt hp)
    (fun u hu => Expr.follows_test hset hp stack hc hct hu)
    (Expr.ensures_test hset.sound hp.distinct hct) hdecide (Nat.le_refl n) hs _ _

theorem Stmt.traced_forEver (hset : Setting p limit n sigs calls a) (hp : Proper vars)
    {back : UInt32} (hback : a.method.code[last]? = some (.jump back)) (htop : back.toNat = start)
    (hbt : body.HasType sigs result true vars inner) (hstepst : ∀ st ∈ steps, st.IsAction sigs vars)
    (hbody : body.Traced p limit n a calls vars stack (last + 1) mid start mid)
    (hsteps : ∀ u, Holds vars u → Follows p limit n (.next (a.state mid stack u)) Store.output
      (ended a stack last leaving again) (execBlock calls n steps u)) :
    (Stmt.forLoop none body steps).Traced p limit n a calls vars stack leaving again start
      (last + 1) := by
  intro s hs
  rw [Stmt.exec, testOf]
  have hjump : ∀ u, Holds vars u →
      step p limit (a.state last stack u) = .next (a.state start stack u) :=
    fun u _ => htop ▸ step_jump hset.method hback
  exact Follows.forEver hbody (Stmt.ensures_inside hset.sound n hbt hp)
    (fun u hu => follows_steps hset hp hstepst hu (hsteps u hu))
    (fun u hu => ensures_steps hset.sound hp.distinct n hstepst hu) hjump (Nat.le_refl n) hs _ _

theorem Stmt.traced_forWhile (hset : Setting p limit n sigs calls a) (hp : Proper vars) {next : Nat}
    {exit back : UInt32} (hc : test.Laid a.method.code a.method.literals start mid)
    (hno : a.method.code[mid]? = some (.jumpIfFalse exit))
    (hback : a.method.code[last]? = some (.jump back)) (htop : back.toNat = start)
    (hexit : exit.toNat = last + 1) (hct : test.HasType sigs vars (.of .bool))
    (hbt : body.HasType sigs result true vars inner) (hstepst : ∀ st ∈ steps, st.IsAction sigs vars)
    (hbody : body.Traced p limit n a calls vars stack (last + 1) next (mid + 1) next)
    (hsteps : ∀ u, Holds vars u → Follows p limit n (.next (a.state next stack u)) Store.output
      (ended a stack last leaving again) (execBlock calls n steps u)) :
    (Stmt.forLoop (some test) body steps).Traced p limit n a calls vars stack leaving again start
      (last + 1) := by
  intro s hs
  rw [Stmt.exec, testOf]
  have hdecide : ∀ b u, Holds vars u →
      step p limit (a.state mid (stack.push (.bool b)) u) =
        if b then .next (a.state (mid + 1) stack u) else .next (a.state (last + 1) stack u) :=
    fun b u _ => hexit ▸ decide_jumpIfFalse hset.method hno b
  have hadvance : ∀ u, Holds vars u →
      Follows p limit n (.next (a.state next stack u)) Store.output
        (fun _ w => .next (a.state start stack w))
        ((do
          let _ ← execBlock calls n steps
          return () : Eval Store Unit) u) := by
    intro u hu
    refine (follows_steps hset hp hstepst hu (hsteps u hu)).extend fun _ w => ?_
    exact ⟨1, htop ▸ after_jump hset.method hback⟩
  exact Follows.loop (fun u hu => Expr.follows_test hset hp stack hc hct hu)
    (Expr.ensures_test hset.sound hp.distinct hct) hdecide hbody
    (Stmt.ensures_inside hset.sound n hbt hp) hadvance
    (fun u hu => ensures_steps hset.sound hp.distinct n hstepst hu) (Nat.le_refl n) hs _ _

theorem Stmt.traced_ret (hset : Setting p limit n sigs calls a) (hp : Proper vars)
    (hk : stack.size = a.base) (he : e.Laid a.method.code a.method.literals start mid)
    (hi : a.method.code[mid]? = some .ret) (hresult : result ≠ .void)
    (het : e.HasType sigs vars (.of result)) :
    (Stmt.ret (some e)).Traced p limit n a calls vars stack leaving again start (mid + 1) := by
  intro s hs
  rw [Stmt.exec]
  refine (Expr.follows hset hp e stack he het s hs).bind
    (Expr.ensures hset.sound hp.distinct e het hs) ?_
  rintro v u ⟨hv, hu⟩
  have hne := Value.Conforms.ne_void hv hresult
  rw [behind, pushed_of_ne hne]
  exact .step (step_ret hset.method hk hi hne) (.here rfl)

theorem Stmt.traced_throw (hset : Setting p limit n sigs calls a) (hp : Proper vars)
    (he : e.Laid a.method.code a.method.literals start mid)
    (hi : a.method.code[mid]? = some .throw) (hthrow : Throwable type)
    (het : e.HasType sigs vars type) :
    (Stmt.throw e).Traced p limit n a calls vars stack leaving again start (mid + 1) := by
  intro s hs
  rw [Stmt.exec]
  refine (Expr.follows hset hp e stack he het s hs).bind
    (Expr.ensures hset.sound hp.distinct e het hs) ?_
  rintro v u ⟨hv, hu⟩
  have hne : type ≠ .of .void := by
    rintro rfl
    cases hthrow
  rw [behind, pushed_of_ne (hv.ne_void hne)]
  exact .step (step_throw hset.method hi v) (.failed rfl)

end

mutual

/-- A run through the code of a statement follows its execution. -/
theorem Stmt.follows (hset : Setting p limit n sigs calls a) {result : DataType} :
    ∀ (st : Stmt) {inLoop : Bool} {vars outer : List Local} {leaving again start stop : Nat}
    (stack : Array Value),
    st.Laid a.method.code a.method.literals leaving again start stop →
      st.HasType sigs result inLoop vars outer → Proper vars → stack.size = a.base →
      st.Traced p limit n a calls vars stack leaving again start stop
  | .block body, inLoop, vars, outer, leaving, again, start, stop, stack, h, ht, hp, hk => by
      intro s hs
      rw [Stmt.exec]
      cases h with
      | block hbody =>
          cases ht with
          | block hbodyt hin hout => exact follows_execBlock hset body stack hbody hbodyt hp hs hk
  | .store slot e, inLoop, vars, outer, leaving, again, start, stop, stack, h, ht, hp, hk => by
      cases h with
      | store he hi =>
          cases ht with
          | store hfresh hvoid het => exact Stmt.traced_store hset hp he hi hvoid het
  | .eval e hasValue, inLoop, vars, outer, leaving, again, start, stop, stack, h, ht, hp, hk => by
      cases h with
      | eval he hi =>
          cases ht with
          | eval het => exact Stmt.traced_eval hset hp he hi het
  | .cond test yes none, inLoop, vars, outer, leaving, again, start, stop, stack, h, ht, hp,
    hk => by
      cases h with
      | condOnly hc hno hy =>
          cases ht with
          | condOnly hct hyt =>
              exact Stmt.traced_condOnly hset hp hc hno hct
                (Stmt.follows hset yes stack hy hyt hp hk)
  | .cond test yes (some no), inLoop, vars, outer, leaving, again, start, stop, stack, h, ht, hp,
    hk => by
      cases h with
      | condElse hc hno hy hend hto hn =>
          cases ht with
          | condElse hct hyt hnt =>
              exact Stmt.traced_condElse hset hp hc hno hend hto hct
                (Stmt.follows hset yes stack hy hyt hp hk)
                (Stmt.follows hset no stack hn hnt hp hk)
  | .loop test body, inLoop, vars, outer, leaving, again, start, stop, stack, h, ht, hp, hk => by
      cases h with
      | loop hc hno hb hback htop hexit =>
          cases ht with
          | loop hct hbt =>
              exact Stmt.traced_loop hset hp hc hno hback htop hexit hct hbt
                (Stmt.follows hset body stack hb hbt hp hk)
  | .doLoop body test, inLoop, vars, outer, leaving, again, start, stop, stack, h, ht, hp, hk => by
      cases h with
      | doLoop hb hc hback htop =>
          cases ht with
          | doLoop hct hbt =>
              exact Stmt.traced_doLoop hset hp hc hback htop hct hbt
                (Stmt.follows hset body stack hb hbt hp hk)
  | .forLoop none body steps, inLoop, vars, outer, leaving, again, start, stop, stack, h, ht, hp,
    hk => by
      cases h with
      | forEver hb hsteps hback htop =>
          cases ht with
          | forLoop hct hbt hstepst =>
              have hblock : BlockHasType sigs result inLoop vars steps vars :=
                blockHasType_actions hstepst
              exact Stmt.traced_forEver hset hp hback htop hbt hstepst
                (Stmt.follows hset body stack hb hbt hp hk)
                fun u hu => follows_execBlock hset steps stack hsteps hblock hp hu hk
  | .forLoop (some test) body steps, inLoop, vars, outer, leaving, again, start, stop, stack, h, ht,
    hp, hk => by
      cases h with
      | forWhile hc hno hb hsteps hback htop hexit =>
          cases ht with
          | forLoop hct hbt hstepst =>
              have hblock : BlockHasType sigs result inLoop vars steps vars :=
                blockHasType_actions hstepst
              exact Stmt.traced_forWhile hset hp hc hno hback htop hexit (hct test rfl) hbt hstepst
                (Stmt.follows hset body stack hb hbt hp hk)
                fun u hu => follows_execBlock hset steps stack hsteps hblock hp hu hk
  | .ret none, inLoop, vars, outer, leaving, again, start, stop, stack, h, ht, hp, hk => by
      intro s hs
      rw [Stmt.exec]
      cases h with
      | retVoid hi => exact .step (step_retVoid hset.method hk hi) (.here rfl)
  | .ret (some e), inLoop, vars, outer, leaving, again, start, stop, stack, h, ht, hp, hk => by
      cases h with
      | ret he hi =>
          cases ht with
          | ret hresult het => exact Stmt.traced_ret hset hp hk he hi hresult het
  | .throw e, inLoop, vars, outer, leaving, again, start, stop, stack, h, ht, hp, hk => by
      cases h with
      | throw he hi =>
          cases ht with
          | throw hthrow het => exact Stmt.traced_throw hset hp he hi hthrow het
  | .leave, inLoop, vars, outer, leaving, again, start, stop, stack, h, ht, hp, hk => by
      intro s hs
      rw [Stmt.exec]
      cases h with
      | leave hi htarget =>
          refine .step (step_jump hset.method hi) (.here ?_)
          rw [htarget]
          rfl
  | .next, inLoop, vars, outer, leaving, again, start, stop, stack, h, ht, hp, hk => by
      intro s hs
      rw [Stmt.exec]
      cases h with
      | next hi htarget =>
          refine .step (step_jump hset.method hi) (.here ?_)
          rw [htarget]
          rfl

theorem follows_execBlock (hset : Setting p limit n sigs calls a) {result : DataType} :
    ∀ (body : List Stmt) {inLoop : Bool} {vars outer : List Local}
    {leaving again start stop : Nat} {s : Store} (stack : Array Value),
    BlockLaid a.method.code a.method.literals leaving again start body stop →
      BlockHasType sigs result inLoop vars body outer → Proper vars → Holds vars s →
      stack.size = a.base →
      Follows p limit n (.next (a.state start stack s)) Store.output
        (ended a stack stop leaving again) (execBlock calls n body s)
  | [], inLoop, vars, outer, leaving, again, start, stop, s, stack, h, ht, hp, hs, hk => by
      rw [execBlock]
      cases h with
      | nil => exact .here rfl
  | st :: rest, inLoop, vars, outer, leaving, again, start, stop, s, stack, h, ht, hp, hs, hk => by
      rw [execBlock]
      cases h with
      | cons hst hrest =>
          cases ht with
          | cons hstt hrestt =>
              refine (Stmt.follows hset st stack hst hstt hp hk s hs).bind
                (Stmt.ensures hset.sound n st hstt hp hs) fun ending u hu => ?_
              cases ending with
              | normal =>
                  have hp' := Stmt.HasType.proper st hstt hp
                  exact follows_execBlock hset rest stack hrest hrestt hp' hu hk
              | leave | next | ret v => exact .here rfl

end

end

end Scriptlet.Core
