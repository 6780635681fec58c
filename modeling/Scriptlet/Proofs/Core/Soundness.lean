import Scriptlet.Proofs.Core.Evaluation
import Scriptlet.Proofs.Machine.RoutineSafety

namespace Scriptlet

/-!
# Soundness of core types

A core program that makes sense never gets to a defect, and its values are of their types. The
variables keep values of their types throughout.
-/

open Code (Handle)
open Machine (Fault ConformAll Safe)

/-- Where a computation ends, if it does: with a result of a kind, or with a failure that is no
defect. -/
def Ensures {σ α : Type} (P : α → σ → Prop) : Option (Except Fault α × σ) → Prop
  | none => True
  | some (.ok a, s) => P a s
  | some (.error f, _) => f.isDefective = false

namespace Ensures

variable {σ τ α β : Type} {P : α → σ → Prop} {Q : β → σ → Prop}

theorem bind {x : Eval σ α} {f : α → Eval σ β} {s : σ} (hx : Ensures P (x s))
    (hf : ∀ a t, P a t → Ensures Q (f a t)) : Ensures Q ((x >>= f) s) := by
  rw [Eval.bind_apply]
  rcases hr : x s with _ | ⟨_ | a, t⟩
  · trivial
  · rw [hr] at hx
    exact hx
  · rw [hr] at hx
    exact hf a t hx

theorem imp {P' : α → σ → Prop} {r : Option (Except Fault α × σ)} (h : Ensures P r)
    (hP : ∀ a s, P a s → P' a s) : Ensures P' r := by
  rcases r with _ | ⟨_ | a, s⟩
  · trivial
  · exact h
  · exact hP a s h

theorem ofExcept {R : α → Prop} {r : Except Fault α} (h : Safe R r) {s : σ}
    (hP : ∀ a, R a → P a s) : Ensures P (Eval.ofExcept r s) := by
  cases r with
  | ok a => exact hP a h
  | error e => exact h

/-- A test with a truth value. -/
theorem condition {R : σ → Prop} {v : Value} (hv : v.Conforms .bool) {s : σ} (hs : R s) :
    Ensures (fun (_ : Bool) t => R t) (Eval.ofExcept (condition v) s) := by
  obtain ⟨b, rfl⟩ := hv
  exact hs

end Ensures

/-- A way for a statement to end, with what holds of the state there: at its end, or where a loop
around it goes on. -/
def Ending.Fits {σ : Type} (result : DataType) (inLoop : Bool) (around behind : σ → Prop) :
    Ending → σ → Prop
  | .normal, s => behind s
  | .leave, s | .next, s => inLoop = true ∧ around s
  | .ret v, _ => v.Conforms result

namespace Ensures

variable {σ : Type} {R : σ → Prop} {result : DataType} {test : Eval σ Bool}
  {body : Eval σ Ending} {advance : Eval σ Unit}

/-- A loop keeps what its test, its rounds and its steps keep. -/
theorem loop (htest : ∀ s, R s → Ensures (fun _ t => R t) (test s))
    (hbody : ∀ s, R s → Ensures (Ending.Fits result true R R) (body s))
    (hadvance : ∀ s, R s → Ensures (fun _ t => R t) (advance s)) (inLoop : Bool) (fuel : Nat)
    {s : σ} (hs : R s) :
    Ensures (Ending.Fits result inLoop R R) (Eval.loop test body advance fuel s) := by
  induction fuel generalizing s with
  | zero => trivial
  | succ fuel ih =>
      refine bind (htest s hs) fun b t ht => ?_
      cases b with
      | false => exact ht
      | true =>
          refine bind (hbody t ht) fun ending u hu => ?_
          cases ending with
          | ret v => exact hu
          | leave => exact hu.2
          | normal => exact bind (hadvance u hu) fun _ w hw => ih hw
          | next => exact bind (hadvance u hu.2) fun _ w hw => ih hw

theorem doLoop (htest : ∀ s, R s → Ensures (fun _ t => R t) (test s))
    (hbody : ∀ s, R s → Ensures (Ending.Fits result true R R) (body s)) (inLoop : Bool)
    (fuel : Nat) {s : σ} (hs : R s) :
    Ensures (Ending.Fits result inLoop R R) (Eval.doLoop body test fuel s) := by
  induction fuel generalizing s with
  | zero => trivial
  | succ fuel ih =>
      have hround : ∀ u, R u → Ensures (Ending.Fits result inLoop R R) ((do
          if ← test then Eval.doLoop body test fuel else return .normal : Eval σ Ending) u) := by
        intro u hu
        refine bind (htest u hu) fun b w hw => ?_
        cases b with
        | false => exact hw
        | true => exact ih hw
      refine bind (hbody s hs) fun ending u hu => ?_
      cases ending with
      | ret v => exact hu
      | leave => exact hu.2
      | normal => exact hround u hu
      | next => exact hround u hu.2

end Ensures

namespace Core

/-- The variables have values of their types. -/
def Holds (vars : List Local) (s : Store) : Prop :=
  ∀ l ∈ vars, (s.slots l.slot).Conforms l.type

/-- No two variables share a slot. -/
def Distinct (vars : List Local) : Prop :=
  ∀ l ∈ vars, ∀ l' ∈ vars, l.slot = l'.slot → l = l'

/-- Variables with slots of their own that hold values. -/
structure Proper (vars : List Local) : Prop where
  distinct : Distinct vars
  valued : ∀ l ∈ vars, l.type ≠ .void

theorem Holds.mono {vars outer : List Local} {s : Store} (h : Holds outer s)
    (hsub : vars ⊆ outer) : Holds vars s :=
  fun l hl => h l (hsub hl)

theorem Distinct.mono {vars outer : List Local} (h : Distinct outer) (hsub : vars ⊆ outer) :
    Distinct vars :=
  fun l hl l' hl' => h l (hsub hl) l' (hsub hl')

theorem Distinct.cons {vars : List Local} {l : Local} (h : Distinct vars)
    (hfresh : ∀ l' ∈ vars, l'.slot ≠ l.slot) : Distinct (l :: vars) := by
  intro a ha b hb hab
  rcases List.mem_cons.1 ha with hal | ha <;> rcases List.mem_cons.1 hb with hbl | hb
  · rw [hal, hbl]
  · exact absurd (hal ▸ hab.symm) (hfresh b hb)
  · exact absurd (hbl ▸ hab) (hfresh a ha)
  · exact h a ha b hb hab

theorem Proper.mono {vars outer : List Local} (h : Proper outer) (hsub : vars ⊆ outer) :
    Proper vars :=
  ⟨h.distinct.mono hsub, fun l hl => h.valued l (hsub hl)⟩

theorem Proper.cons {vars : List Local} {l : Local} (h : Proper vars)
    (hfresh : ∀ l' ∈ vars, l'.slot ≠ l.slot) (hvoid : l.type ≠ .void) : Proper (l :: vars) where
  distinct := h.distinct.cons hfresh
  valued l' hl' := by
    rcases List.mem_cons.1 hl' with rfl | hl'
    · exact hvoid
    · exact h.valued l' hl'

/-- A variable may get a value of its type. -/
theorem Holds.assign {vars : List Local} {s : Store} (h : Holds vars s) (hd : Distinct vars)
    {l : Local} (hl : l ∈ vars) {v : Value} (hv : v.Conforms l.type) :
    Holds vars (s.assign l.slot v) := by
  intro l' hl'
  rw [Store.slots_assign]
  split
  · next heq => rwa [hd l' hl' l hl heq]
  · exact h l' hl'

/-- A new variable gets its first value. -/
theorem Holds.cons {vars : List Local} {s : Store} (h : Holds vars s) {l : Local}
    (hfresh : ∀ l' ∈ vars, l'.slot ≠ l.slot) {v : Value} (hv : v.Conforms l.type) :
    Holds (l :: vars) (s.assign l.slot v) := by
  intro l' hl'
  rw [Store.slots_assign]
  rcases List.mem_cons.1 hl' with rfl | hl'
  · rwa [if_pos rfl]
  · rw [if_neg (hfresh l' hl')]
    exact h l' hl'

theorem Holds.of_slots {vars : List Local} {s : Store} (h : Holds vars s) (output : String) :
    Holds vars ⟨s.slots, output⟩ :=
  h

/-- Calling a method is sound for arguments of the types of its parameters. -/
def CallsSound (sigs : Interface) (calls : Calls) : Prop :=
  ∀ h m args output, sigs h = some m → ConformAll args m.params →
    Ensures (fun v _ => v.Conforms m.result) (calls h args output)

theorem Ensures.printing {vars : List Local} {P : Value → Prop} {x : Eval String Value} {s : Store}
    (hs : Holds vars s) (hx : ∀ output, Ensures (fun v _ => P v) (x output)) :
    Ensures (fun v t => P v ∧ Holds vars t) (printing x s) := by
  have h := hx s.output
  rw [Core.printing, Eval.onPart_apply]
  rcases hr : x s.output with _ | ⟨_ | v, output⟩
  · trivial
  · rw [hr] at h
    exact h
  · rw [hr] at h
    exact ⟨h, hs.of_slots output⟩

theorem ensures_perform {r : Code.Routine} {params : List DataType} {t : DataType}
    (h : r.Takes params t) {args : List Value} (hargs : ConformAll args params)
    (output : String) : Ensures (fun v _ => v.Conforms t) (perform r args output) := by
  have hcall := Machine.safe_call h hargs
  unfold perform
  rcases hr : Machine.call r args with f | ⟨v⟩ | ⟨text⟩
  · rw [hr] at hcall
    exact hcall
  · rw [hr] at hcall
    exact hcall.2
  · rw [hr] at hcall
    obtain rfl : t = .void := hcall
    exact rfl

mutual

/-- An expression has a value of its type and keeps the types of the variables. -/
theorem Expr.ensures {sigs : Interface} {calls : Calls} (hcalls : CallsSound sigs calls)
    {vars : List Local} (hd : Distinct vars) : ∀ (e : Expr) {t : StaticType} {s : Store},
    e.HasType sigs vars t → Holds vars s →
      Ensures (fun v u => v.ConformsTo t ∧ Holds vars u) (e.eval calls s)
  | .literal l, t, s, ht, hs => by
      rw [Expr.eval]
      cases ht with
      | literal hl => exact ⟨hl, hs⟩
      | null => exact ⟨rfl, hs⟩
  | .load slot, t, s, ht, hs => by
      rw [Expr.eval]
      cases ht with
      | load hl => exact ⟨hs _ hl, hs⟩
  | .convert c target e, t, s, ht, hs => by
      rw [Expr.eval]
      cases ht with
      | convert he hc =>
          refine (Expr.ensures hcalls hd e he hs).bind fun v u ⟨hv, hu⟩ => ?_
          exact Ensures.ofExcept (Machine.safe_apply_conversion hc hv) fun w hw => ⟨hw, hu⟩
  | .settle c target e, t, s, ht, hs => by
      rw [Expr.eval]
      cases ht with
      | settle he hc =>
          refine (Expr.ensures hcalls hd e he hs).bind fun v u ⟨hv, hu⟩ => ?_
          exact Ensures.ofExcept (Machine.safe_apply_conversion hc hv) fun w hw => ⟨hw, hu⟩
      | kept he =>
          exact (Expr.ensures hcalls hd e he hs).bind fun v u hv => hv
  | .unary op e, t, s, ht, hs => by
      rw [Expr.eval]
      cases ht with
      | unary he hop =>
          refine (Expr.ensures hcalls hd e he hs).bind fun v u ⟨hv, hu⟩ => ?_
          exact Ensures.ofExcept (Machine.safe_unary hv hop) fun w hw => ⟨hw, hu⟩
  | .combine c left right, t, s, ht, hs => by
      rw [Expr.eval]
      cases ht with
      | combine hl hr hc =>
          refine (Expr.ensures hcalls hd left hl hs).bind fun v u ⟨hv, hu⟩ => ?_
          refine (Expr.ensures hcalls hd right hr hu).bind fun w x ⟨hw, hx⟩ => ?_
          exact Ensures.ofExcept (Machine.safe_apply_combiner hv hw hc) fun y hy => ⟨hy, hx⟩
  | .andAlso left right, t, s, ht, hs => by
      rw [Expr.eval]
      cases ht with
      | andAlso hl hr =>
          refine (Expr.ensures hcalls hd left hl hs).bind fun v u ⟨hv, hu⟩ => ?_
          refine (Ensures.condition hv hu).bind fun b x hx => ?_
          cases b with
          | false => exact ⟨⟨false, rfl⟩, hx⟩
          | true => exact Expr.ensures hcalls hd right hr hx
  | .orElse left right, t, s, ht, hs => by
      rw [Expr.eval]
      cases ht with
      | orElse hl hr =>
          refine (Expr.ensures hcalls hd left hl hs).bind fun v u ⟨hv, hu⟩ => ?_
          refine (Ensures.condition hv hu).bind fun b x hx => ?_
          cases b with
          | false => exact Expr.ensures hcalls hd right hr hx
          | true => exact ⟨⟨true, rfl⟩, hx⟩
  | .assign slot e, t, s, ht, hs => by
      rw [Expr.eval]
      cases ht with
      | assign hl he =>
          refine (Expr.ensures hcalls hd e he hs).bind fun v u ⟨hv, hu⟩ => ?_
          exact ⟨hv, hu.assign hd hl hv⟩
  | .advance slot op c target, t, s, ht, hs => by
      rw [Expr.eval]
      cases ht with
      | @advance l _ _ u hl hop hc =>
          have hone : (Value.int 1).ConformsTo (.of .int) := ⟨1, rfl⟩
          have hold : (s.slots l.slot).ConformsTo (.of l.type) := hs l hl
          have hnew := Machine.safe_apply_combiner hold hone hop
          refine Ensures.bind (P := fun v x => v = s.slots l.slot ∧ x = s) ⟨rfl, rfl⟩ ?_
          rintro v x ⟨rfl, rfl⟩
          refine (Ensures.ofExcept (P := fun v x => v.Conforms u ∧ Holds vars x) hnew
            fun w hw => ⟨hw, hs⟩).bind fun w x ⟨hw, hx⟩ => ?_
          refine (Ensures.ofExcept (P := fun v x => v.Conforms l.type ∧ Holds vars x)
            (Machine.safe_apply_conversion hc hw) fun y hy => ⟨hy, hx⟩).bind
            fun y z ⟨hy, hz⟩ => ?_
          exact ⟨hold, hz.assign hd hl hy⟩
  | .choose test yes no, t, s, ht, hs => by
      rw [Expr.eval]
      cases ht with
      | choose hc hy hn =>
          refine (Expr.ensures hcalls hd test hc hs).bind fun v u ⟨hv, hu⟩ => ?_
          refine (Ensures.condition hv hu).bind fun b x hx => ?_
          cases b with
          | false => exact Expr.ensures hcalls hd no hn hx
          | true => exact Expr.ensures hcalls hd yes hy hx
  | .call method args, t, s, ht, hs => by
      rw [Expr.eval]
      cases ht with
      | call hm hargs =>
          refine (ensures_evalArgs hcalls hd args hargs hs).bind fun vs u ⟨hvs, hu⟩ => ?_
          exact Ensures.printing hu fun output => hcalls method _ vs output hm hvs
  | .routine r args, t, s, ht, hs => by
      rw [Expr.eval]
      cases ht with
      | routine hr hargs =>
          refine (ensures_evalArgs hcalls hd args hargs hs).bind fun vs u ⟨hvs, hu⟩ => ?_
          exact Ensures.printing hu fun output => ensures_perform hr hvs output

theorem ensures_evalArgs {sigs : Interface} {calls : Calls} (hcalls : CallsSound sigs calls)
    {vars : List Local} (hd : Distinct vars) :
    ∀ (es : List Expr) {ts : List DataType} {s : Store},
    ArgsHaveTypes sigs vars es ts → Holds vars s →
      Ensures (fun vs u => ConformAll vs ts ∧ Holds vars u) (evalArgs calls es s)
  | [], ts, s, hts, hs => by
      rw [evalArgs]
      cases hts with
      | nil => exact ⟨.nil, hs⟩
  | e :: es, ts, s, hts, hs => by
      rw [evalArgs]
      cases hts with
      | cons _ he hes =>
          refine (Expr.ensures hcalls hd e he hs).bind fun v u ⟨hv, hu⟩ => ?_
          refine (ensures_evalArgs hcalls hd es hes hu).bind fun vs x ⟨hvs, hx⟩ => ?_
          exact ⟨.cons hv hvs, hx⟩

end

mutual

/-- New variables have slots of their own. -/
theorem Stmt.HasType.proper {sigs : Interface} {result : DataType} : ∀ (st : Stmt)
    {inLoop : Bool} {vars outer : List Local}, st.HasType sigs result inLoop vars outer →
      Proper vars → Proper outer
  | .block body, _, _, _, h, hd => by
      cases h with
      | block hbody hin hout => exact (BlockHasType.proper body hbody hd).mono hout
  | .store slot e, _, _, _, h, hd => by
      cases h with
      | store hfresh hvoid he => exact hd.cons hfresh hvoid
  | .eval e hasValue, _, _, _, h, hd => by
      cases h
      exact hd
  | .cond test yes no, _, _, _, h, hd => by
      cases h <;> exact hd
  | .loop test body, _, _, _, h, hd => by
      cases h
      exact hd
  | .doLoop body test, _, _, _, h, hd => by
      cases h
      exact hd
  | .forLoop test body steps, _, _, _, h, hd => by
      cases h
      exact hd
  | .ret value, _, _, _, h, hd => by
      cases h <;> exact hd
  | .throw e, _, _, _, h, hd => by
      cases h
      exact hd
  | .leave, _, _, _, h, hd | .next, _, _, _, h, hd => by
      cases h
      exact hd

theorem BlockHasType.proper {sigs : Interface} {result : DataType} : ∀ (body : List Stmt)
    {inLoop : Bool} {vars outer : List Local},
    BlockHasType sigs result inLoop vars body outer → Proper vars → Proper outer
  | [], _, _, _, h, hd => by
      cases h
      exact hd
  | st :: rest, _, _, _, h, hd => by
      cases h with
      | cons hs hrest =>
          exact BlockHasType.proper rest hrest (Stmt.HasType.proper st hs hd)

end

theorem Expr.ensures_test {sigs : Interface} {calls : Calls} (hcalls : CallsSound sigs calls)
    {vars : List Local} (hd : Distinct vars) {e : Expr} (he : e.HasType sigs vars (.of .bool))
    (s : Store) (hs : Holds vars s) : Ensures (fun _ u => Holds vars u) (e.test calls s) :=
  (Expr.ensures hcalls hd e he hs).bind fun _ _ ⟨hv, hu⟩ => Ensures.condition hv hu

theorem ensures_testOf {sigs : Interface} {calls : Calls} (hcalls : CallsSound sigs calls)
    {vars : List Local} (hd : Distinct vars) {test : Option Expr}
    (ht : ∀ e ∈ test, e.HasType sigs vars (.of .bool)) (s : Store) (hs : Holds vars s) :
    Ensures (fun _ u => Holds vars u) (testOf calls test s) := by
  cases test with
  | none => exact hs
  | some e => exact Expr.ensures_test hcalls hd (ht e rfl) s hs

/-- A way to end among the variables around a statement, and those behind it. -/
abbrev Fits (result : DataType) (inLoop : Bool) (vars outer : List Local) : Ending → Store → Prop :=
  Ending.Fits result inLoop (Holds vars) (Holds outer)

theorem ensures_fits_mono {result : DataType} {inLoop : Bool} {vars outer outer' : List Local}
    {r : Option (Except Fault Ending × Store)} (h : Ensures (Fits result inLoop vars outer') r)
    (hsub : outer ⊆ outer') : Ensures (Fits result inLoop vars outer) r := by
  refine h.imp fun ending s hs => ?_
  cases ending with
  | normal => exact hs.mono hsub
  | leave | next | ret v => exact hs

/-- Expressions that run as statements come to their end. -/
theorem ensures_actions {sigs : Interface} {calls : Calls} (hcalls : CallsSound sigs calls)
    {vars : List Local} (hd : Distinct vars) (fuel : Nat) {steps : List Stmt} {s : Store}
    (h : ∀ st ∈ steps, st.IsAction sigs vars) (hs : Holds vars s) :
    Ensures (fun ending u => ending = .normal ∧ Holds vars u) (execBlock calls fuel steps s) := by
  induction steps generalizing s with
  | nil =>
      rw [execBlock]
      exact ⟨rfl, hs⟩
  | cons st rest ih =>
      obtain ⟨e, t, rfl, he⟩ := h st List.mem_cons_self
      rw [execBlock, Stmt.exec]
      have hfirst : Ensures (fun ending u => ending = .normal ∧ Holds vars u)
          ((do
            let _ ← e.eval calls
            return Ending.normal) s) :=
        (Expr.ensures hcalls hd e he hs).bind fun _ u hens => ⟨rfl, hens.2⟩
      refine hfirst.bind fun ending u hens => ?_
      obtain ⟨rfl, hu⟩ := hens
      exact ih (fun st' hst' => h st' (List.mem_cons_of_mem _ hst')) hu

/-- The steps of a loop keep the types of the variables. -/
theorem ensures_steps {sigs : Interface} {calls : Calls} (hcalls : CallsSound sigs calls)
    {vars : List Local} (hd : Distinct vars) (fuel : Nat) {steps : List Stmt} {s : Store}
    (h : ∀ st ∈ steps, st.IsAction sigs vars) (hs : Holds vars s) :
    Ensures (fun _ u => Holds vars u)
      ((do
        let _ ← execBlock calls fuel steps
        return () : Eval Store Unit) s) :=
  (ensures_actions hcalls hd fuel h hs).bind fun _ _ ⟨_, hu⟩ => hu

/-- What a fault of a throw statement can be. -/
theorem isDefective_throwFault {v : Value} {t : StaticType} (ht : Throwable t)
    (hv : v.ConformsTo t) : (Machine.throwFault v).isDefective = false := by
  cases ht with
  | null =>
      cases hv
      rfl
  | exception c => rcases hv with rfl | ⟨k, message, rfl, -⟩ <;> rfl

mutual

/-- A statement keeps the types of the variables. -/
theorem Stmt.ensures {sigs : Interface} {calls : Calls} (hcalls : CallsSound sigs calls)
    {result : DataType} (fuel : Nat) : ∀ (st : Stmt) {inLoop : Bool} {vars outer : List Local}
    {s : Store}, st.HasType sigs result inLoop vars outer → Proper vars → Holds vars s →
      Ensures (Fits result inLoop vars outer) (st.exec calls fuel s)
  | .block body, inLoop, vars, outer, s, h, hd, hs => by
      rw [Stmt.exec]
      cases h with
      | block hbody hin hout =>
          exact ensures_fits_mono (ensures_execBlock hcalls fuel body hbody hd hs) hout
  | .store slot e, inLoop, vars, outer, s, h, hd, hs => by
      rw [Stmt.exec]
      cases h with
      | store hfresh hvoid he =>
          refine (Expr.ensures hcalls hd.distinct e he hs).bind fun v u ⟨hv, hu⟩ => ?_
          exact hu.cons hfresh hv
  | .eval e hasValue, inLoop, vars, outer, s, h, hd, hs => by
      rw [Stmt.exec]
      cases h with
      | eval he => exact (Expr.ensures hcalls hd.distinct e he hs).bind fun v u ⟨_, hu⟩ => hu
  | .cond test yes none, inLoop, vars, outer, s, h, hd, hs => by
      rw [Stmt.exec]
      cases h with
      | condOnly hc hy =>
          refine (Expr.ensures_test hcalls hd.distinct hc s hs).bind fun b u hu => ?_
          cases b with
          | false => exact hu
          | true => exact ensures_fits_mono (Stmt.ensures hcalls fuel yes hy hd hu) hy.subset
  | .cond test yes (some no), inLoop, vars, outer, s, h, hd, hs => by
      rw [Stmt.exec]
      cases h with
      | condElse hc hy hn =>
          refine (Expr.ensures_test hcalls hd.distinct hc s hs).bind fun b u hu => ?_
          cases b with
          | false => exact ensures_fits_mono (Stmt.ensures hcalls fuel no hn hd hu) hn.subset
          | true => exact ensures_fits_mono (Stmt.ensures hcalls fuel yes hy hd hu) hy.subset
  | .loop test body, inLoop, vars, outer, s, h, hd, hs => by
      rw [Stmt.exec]
      cases h with
      | loop hc hb =>
          refine Ensures.loop (Expr.ensures_test hcalls hd.distinct hc) (fun u hu => ?_)
            (fun u hu => ?_) inLoop fuel hs
          · exact ensures_fits_mono (Stmt.ensures hcalls fuel body hb hd hu) hb.subset
          · exact hu
  | .doLoop body test, inLoop, vars, outer, s, h, hd, hs => by
      rw [Stmt.exec]
      cases h with
      | doLoop hc hb =>
          refine Ensures.doLoop (Expr.ensures_test hcalls hd.distinct hc) (fun u hu => ?_) inLoop
            fuel hs
          exact ensures_fits_mono (Stmt.ensures hcalls fuel body hb hd hu) hb.subset
  | .forLoop test body steps, inLoop, vars, outer, s, h, hd, hs => by
      rw [Stmt.exec]
      cases h with
      | forLoop hc hb hsteps =>
          refine Ensures.loop (ensures_testOf hcalls hd.distinct hc) (fun u hu => ?_)
            (fun u hu => ?_) inLoop fuel hs
          · exact ensures_fits_mono (Stmt.ensures hcalls fuel body hb hd hu) hb.subset
          · exact ensures_steps hcalls hd.distinct fuel hsteps hu
  | .ret none, inLoop, vars, outer, s, h, hd, hs => by
      rw [Stmt.exec]
      cases h with
      | retVoid hresult =>
          subst hresult
          exact rfl
  | .ret (some e), inLoop, vars, outer, s, h, hd, hs => by
      rw [Stmt.exec]
      cases h with
      | ret hresult he =>
          exact (Expr.ensures hcalls hd.distinct e he hs).bind fun v u ⟨hv, _⟩ => hv
  | .throw e, inLoop, vars, outer, s, h, hd, hs => by
      rw [Stmt.exec]
      cases h with
      | throw ht he =>
          exact (Expr.ensures hcalls hd.distinct e he hs).bind fun v u ⟨hv, _⟩ =>
            isDefective_throwFault ht hv
  | .leave, inLoop, vars, outer, s, h, hd, hs => by
      rw [Stmt.exec]
      cases h with
      | leave => exact ⟨rfl, hs⟩
  | .next, inLoop, vars, outer, s, h, hd, hs => by
      rw [Stmt.exec]
      cases h with
      | next => exact ⟨rfl, hs⟩

theorem ensures_execBlock {sigs : Interface} {calls : Calls} (hcalls : CallsSound sigs calls)
    {result : DataType} (fuel : Nat) : ∀ (body : List Stmt) {inLoop : Bool}
    {vars outer : List Local} {s : Store}, BlockHasType sigs result inLoop vars body outer →
      Proper vars → Holds vars s →
      Ensures (Fits result inLoop vars outer) (execBlock calls fuel body s)
  | [], inLoop, vars, outer, s, h, hd, hs => by
      rw [execBlock]
      cases h with
      | nil => exact hs
  | st :: rest, inLoop, vars, outer, s, h, hd, hs => by
      rw [execBlock]
      cases h with
      | cons hst hrest =>
          refine (Stmt.ensures hcalls fuel st hst hd hs).bind fun ending u hu => ?_
          cases ending with
          | normal =>
              have hd' := Stmt.HasType.proper st hst hd
              refine (ensures_execBlock hcalls fuel rest hrest hd' hu).imp fun e x hx => ?_
              cases e with
              | normal => exact hx
              | leave | next => exact ⟨hx.1, hx.2.mono hst.subset⟩
              | ret v => exact hx
          | leave | next | ret v => exact hu

end

/-- A statement keeps the types of the variables that are there before it. -/
theorem Stmt.ensures_inside {sigs : Interface} {calls : Calls} (hcalls : CallsSound sigs calls)
    {result : DataType} (fuel : Nat) {st : Stmt} {inLoop : Bool} {vars outer : List Local}
    (h : st.HasType sigs result inLoop vars outer) (hd : Proper vars) (s : Store)
    (hs : Holds vars s) : Ensures (Fits result inLoop vars vars) (st.exec calls fuel s) :=
  ensures_fits_mono (Stmt.ensures hcalls fuel st h hd hs) h.subset

/-- A program in which every body makes sense on its own. The slots of the parameters come first. A
body whose end can be reached belongs to a method without a result. -/
structure BodiesSound (sigs : Interface) (bodies : Handle → Option Stmt) : Prop where
  sound : ∀ h body, bodies h = some body → ∃ m vars outer, sigs h = some m ∧ .void ∉ m.params ∧
    (∀ l ∈ vars, m.params[l.slot.toNat]? = some l.type) ∧
    body.HasType sigs m.result false vars outer ∧
    (m.result ≠ .void → ∀ calls fuel s t, body.exec calls fuel s ≠ some (.ok .normal, t))

theorem proper_params {params : List DataType} {vars : List Local} (hvoid : .void ∉ params)
    (h : ∀ l ∈ vars, params[l.slot.toNat]? = some l.type) : Proper vars := by
  refine ⟨fun l hl l' hl' hslot => ?_, fun l hl heq => ?_⟩
  · have htype := h l hl
    rw [hslot, h l' hl', Option.some.injEq] at htype
    obtain ⟨slot, type⟩ := l
    obtain ⟨slot', type'⟩ := l'
    simp_all
  · have htype := h l hl
    rw [heq] at htype
    exact hvoid (List.mem_of_getElem? htype)

theorem holds_params {params : List DataType} {vars : List Local}
    (h : ∀ l ∈ vars, params[l.slot.toNat]? = some l.type) {args : List Value}
    (hargs : ConformAll args params) (output : String) : Holds vars (.ofArgs args output) := by
  intro l hl
  obtain ⟨hlt, hget⟩ := List.getElem?_eq_some_iff.1 (h l hl)
  have hlt' : l.slot.toNat < args.length := hargs.length_eq ▸ hlt
  have hslot : (Store.ofArgs args output).slots l.slot = args[l.slot.toNat] := by
    simp [Store.ofArgs, hlt']
  rw [hslot, ← hget]
  exact hargs.get hlt' hlt

/-- Calling a method of a sound program is sound. -/
theorem callsSound_invoke {sigs : Interface} {bodies : Handle → Option Stmt}
    (hsound : BodiesSound sigs bodies) (limit fuel depth : Nat) :
    CallsSound sigs (invoke bodies limit fuel depth) := by
  induction fuel generalizing depth with
  | zero =>
      intro h m args output hm hargs
      trivial
  | succ fuel ih =>
      intro h m args output hm hargs
      rw [invoke]
      by_cases hl : limit ≤ depth
      · rw [if_pos hl]
        exact rfl
      rw [if_neg hl]
      cases hb : bodies h with
      | none => trivial
      | some body =>
          obtain ⟨m', vars, outer, hm', hvoid, hparams, hbody, hend⟩ := hsound.sound h body hb
          obtain rfl : m' = m := Option.some.inj (hm'.symm.trans hm)
          have hrun := Stmt.ensures (ih (depth + 1)) fuel body hbody (proper_params hvoid hparams)
            (holds_params hparams hargs output)
          dsimp only [Stmt.run]
          rcases hr : body.exec (invoke bodies limit fuel (depth + 1)) fuel (.ofArgs args output)
            with _ | ⟨f | ending, s⟩
          · trivial
          · rw [hr] at hrun
            exact hrun
          · rw [hr] at hrun
            cases ending with
            | normal =>
                by_cases hresult : m'.result = .void
                · rw [hresult]
                  exact rfl
                · exact absurd hr (hend hresult _ _ _ _)
            | leave => exact absurd hrun.1 Bool.false_ne_true
            | next => exact absurd hrun.1 Bool.false_ne_true
            | ret v => exact hrun

end Core

end Scriptlet
