import Scriptlet.Proofs.Core.Execution

namespace Scriptlet.Core

/-!
# The machine calls core methods

If the methods of a program hold the code of core bodies, then calling a method on the machine and
running its body come to the same outcome, and one goes on for ever if the other does.
-/

open Code (Instr Handle)
open Machine (Program Frame Step Outcome ConformAll Follows Lasts enter)

/-- A code that ends at a place, with a return or without one. -/
def Closes (code : Array Instr) (stop : Nat) : Prop :=
  code[stop]? = none ∨ code[stop]? = some .retVoid

/-- The methods of a program hold the code of bodies. -/
structure Holding (p : Program) (sigs : Interface) (bodies : Handle → Option Stmt) : Prop where
  laid : ∀ h m, sigs h = some m → ∃ f body stop, p.method? h = some f ∧
    f.params.length = m.params.length ∧ bodies h = some body ∧
    (∀ leaving again, body.Laid f.code f.literals leaving again 0 stop) ∧ Closes f.code stop

section

variable {p : Program} {limit : Nat} {sigs : Interface} {bodies : Handle → Option Stmt}

theorem slots_ofArgs (args : List Value) (output : String) (count : UInt16)
    (h : args.length ≤ count.toNat) :
    Machine.slots args count.toNat =
      Array.ofFn fun i : Fin count.toNat => (Store.ofArgs args output).slots (.ofNat i) := by
  unfold Machine.slots
  refine Array.ext_getElem? fun i => ?_
  rw [List.take_of_length_le h]
  by_cases hi : i < count.toNat
  · have hsmall : i < 65536 := Nat.lt_trans hi count.toNat_lt
    simp only [List.getElem?_toArray, Array.getElem?_ofFn, hi, dif_pos, Store.ofArgs]
    rw [UInt16.toNat_ofNat_of_lt' hsmall]
    by_cases harg : i < args.length
    · rw [List.getElem?_append_left harg]
      simp [harg]
    · rw [List.getElem?_append_right (Nat.le_of_not_lt harg)]
      have hrest : i - args.length < count.toNat - args.length := by omega
      simp [harg, hrest]
  · simp only [List.getElem?_toArray, Array.getElem?_ofFn, hi, dif_neg, not_false_eq_true]
    exact List.getElem?_eq_none (by simp; omega)

/-- A run of a body, with the steps behind it that leave the method. -/
theorem follows_run {n : Nat} {calls : Calls} {a : Activation} (hset : Setting p limit n sigs calls a)
    {result : DataType} {body : Stmt} {vars outer : List Local} {stop : Nat}
    (hlaid : ∀ leaving again,
      body.Laid a.method.code a.method.literals leaving again 0 stop)
    (hclose : Closes a.method.code stop) (ht : body.HasType sigs result false vars outer)
    (hp : Proper vars) {args : List Value} {output : String}
    (hs : Holds vars (.ofArgs args output)) {stack : Array Value} (hk : stack.size = a.base) :
    Follows p limit n (.next (a.state 0 stack (.ofArgs args output))) id
      (fun v output => returned stack a.rest v output) (body.run calls n args output) := by
  have hfollow := Stmt.follows hset body stack (hlaid 0 0) ht hp hk _ hs
  have hfits := Stmt.ensures hset.sound n body ht hp hs
  dsimp only [Stmt.run]
  rcases hr : body.exec calls n (.ofArgs args output) with _ | ⟨f | ending, s⟩
  · rw [hr] at hfollow
    exact hfollow
  · rw [hr] at hfollow
    exact hfollow
  · rw [hr] at hfollow hfits
    cases ending with
    | normal =>
        obtain ⟨k, hk'⟩ := hfollow
        have hstep : Machine.step p limit (a.state stop stack s) =
            returned stack a.rest .void s.output := by
          rcases hclose with hi | hi
          · exact step_end hset.method hk hi
          · exact step_retVoid hset.method hk hi
        refine .of_after hk' (.step hstep (.here rfl))
    | leave => exact absurd hfits.1 Bool.false_ne_true
    | next => exact absurd hfits.1 Bool.false_ne_true
    | ret v => exact hfollow

/-- Entering a method and running it follows calling it, at every depth. -/
theorem callsFollow_invoke (hholding : Holding p sigs bodies) (hsound : BodiesSound sigs bodies)
    (fuel depth : Nat) : CallsFollow p limit fuel depth sigs (invoke bodies limit fuel depth) := by
  induction fuel generalizing depth with
  | zero =>
      intro h m args stack frames output hm hargs hdepth
      exact fun k hk => absurd hk (Nat.not_lt_zero k)
  | succ fuel ih =>
      intro h m args stack frames output hm hargs hdepth
      obtain ⟨f, body, stop, hf, hparams, hb, hlaid, hclose⟩ := hholding.laid h m hm
      obtain ⟨m', vars, outer, hm', hvoid, hvars, hbody, hend⟩ := hsound.sound h body hb
      obtain rfl : m' = m := Option.some.inj (hm'.symm.trans hm)
      rw [invoke, enter, hdepth]
      by_cases hl : limit ≤ depth
      · rw [if_pos hl, if_pos hl]
        exact .failed rfl
      rw [if_neg hl, if_neg hl]
      simp only [hf, hb]
      have hargs' : args.length ≤ f.locals.toNat := by
        rw [hargs.length_eq, ← hparams]
        exact Program.params_le_locals hf
      let a : Activation := ⟨h, f, stack.size, depth + 1, frames⟩
      have hset : Setting p limit fuel sigs (invoke bodies limit fuel (depth + 1)) a := {
        method := hf
        callees := fun h' m₁ hm₁ => by
          obtain ⟨f', _, _, hf', hparams', _⟩ := hholding.laid h' m₁ hm₁
          exact ⟨f', hf', hparams'⟩
        sound := callsSound_invoke hsound limit fuel (depth + 1)
        follows := ih (depth + 1) }
      have hproper := proper_params hvoid hvars
      have hholds := holds_params hvars hargs output
      have hsize : stack.size = a.base := rfl
      have hrun := follows_run hset hlaid hclose hbody hproper hholds hsize
      rw [slots_ofArgs args output f.locals hargs']
      exact hrun

theorem start_eq {h : Handle} {f : Code.Method} (hf : p.method? h = some f) {args : List Value}
    (hargs : args.length = f.params.length) :
    Machine.start p limit h args = enter p limit h args #[] [] "" := by
  simp only [Machine.start, hf, if_pos hargs]

/-- The machine and the evaluator agree on every call: an outcome of one is an outcome of the
other. -/
theorem invoke_eq_some_iff (hholding : Holding p sigs bodies) (hsound : BodiesSound sigs bodies)
    {h : Handle} {m : MethodSignature} (hm : sigs h = some m) {args : List Value}
    (hargs : ConformAll args m.params) (o : Outcome) :
    (∃ n, Machine.invoke p limit n h args = some o) ↔
      ∃ n, invoke bodies limit n 0 h args "" = some (o.result, o.output) := by
  obtain ⟨f, _, _, hf, hparams, _⟩ := hholding.laid h m hm
  have hstart : Machine.start p limit h args = enter p limit h args #[] [] "" :=
    start_eq hf (hargs.length_eq.trans hparams.symm)
  have hfollow : ∀ n, Follows p limit (n - 1) (enter p limit h args #[] [] "") id
      (fun v output => .done v output) (invoke bodies limit n 0 h args "") := fun n =>
    callsFollow_invoke hholding hsound n 0 h m args #[] [] "" hm hargs rfl
  have hends : ∀ n r output, invoke bodies limit n 0 h args "" = some (r, output) →
      ∃ k, (Machine.after p limit k (enter p limit h args #[] [] "")).outcome? =
        some ⟨r, output⟩ := by
    intro n r output hr
    have hn := hfollow n
    rw [hr] at hn
    cases r with
    | ok v =>
        obtain ⟨k, hk⟩ := hn
        exact ⟨k, by rw [hk]; rfl⟩
    | error g =>
        obtain ⟨k, hk⟩ := hn
        exact ⟨k, by rw [hk]; rfl⟩
  constructor
  · rintro ⟨n, hn⟩
    rw [Machine.invoke, hstart, Machine.runFrom_eq_outcome?] at hn
    cases hr : invoke bodies limit (n + 2) 0 h args "" with
    | none =>
        have hlasts := hfollow (n + 2)
        rw [hr] at hlasts
        have hnone := hlasts n (Nat.lt_succ_self n)
        rw [hn] at hnone
        cases hnone
    | some r =>
        obtain ⟨k, hk⟩ := hends _ r.1 r.2 hr
        obtain rfl := Machine.outcome?_unique hn hk
        exact ⟨n + 2, hr⟩
  · rintro ⟨n, hn⟩
    obtain ⟨k, hk⟩ := hends n o.result o.output hn
    exact ⟨k, by rw [Machine.invoke, hstart, Machine.runFrom_eq_outcome?, hk]⟩

end

end Scriptlet.Core
