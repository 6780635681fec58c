import Scriptlet.Proofs.Core.Soundness
import Scriptlet.Proofs.Machine.Trace

namespace Scriptlet.Machine

/-!
# Runs that follow computations

A run of the machine follows a computation if it comes to the state that belongs to the result, fails
in the same way, or goes on for as long as the fuel of the computation says.
-/

section

variable (p : Program) (limit : Nat)

/-- A run that has not ended before `n` steps. -/
def Lasts (n : Nat) (x : Step) : Prop :=
  ∀ k < n, (after p limit k x).outcome? = none

/-- What a run that begins with `x` does when a computation comes to `r`. -/
def Follows {σ α : Type} (n : Nat) (x : Step) (output : σ → String) (post : α → σ → Step) :
    Option (Except Fault α × σ) → Prop
  | none => Lasts p limit n x
  | some (.ok a, t) => ∃ k, after p limit k x = post a t
  | some (.error f, t) => ∃ k, after p limit k x = .failed f (output t)

end

section

variable {p : Program} {limit : Nat}

theorem Lasts.mono {m n : Nat} {x : Step} (h : Lasts p limit n x) (hmn : m ≤ n) :
    Lasts p limit m x :=
  fun k hk => h k (Nat.lt_of_lt_of_le hk hmn)

theorem Lasts.succ {n : Nat} {s : State} (h : Lasts p limit n (step p limit s)) :
    Lasts p limit (n + 1) (.next s) := by
  intro k hk
  cases k with
  | zero => rfl
  | succ k => exact h k (Nat.lt_of_succ_lt_succ hk)

/-- A run lasts if it lasts from where it comes to. -/
theorem Lasts.of_after {n k : Nat} {x y : Step} (hk : after p limit k x = y)
    (h : Lasts p limit n y) : Lasts p limit n x := by
  intro j hj
  cases ho : (after p limit j x).outcome? with
  | none => rfl
  | some o =>
      have hend : (after p limit k (after p limit j x)).outcome? = some o :=
        outcome?_after_of_outcome? ho k
      rw [← after_add, Nat.add_comm, after_add, hk, h j hj] at hend
      cases hend

theorem after_one (s : State) : after p limit 1 (.next s) = step p limit s := by
  rw [after_succ_next, after_zero]

namespace Follows

variable {σ α β : Type} {m n : Nat} {x y : Step} {output : σ → String} {post : α → σ → Step}
  {r : Option (Except Fault α × σ)}

theorem here {a : α} {t : σ} (h : x = post a t) :
    Follows p limit n x output post (some (.ok a, t)) :=
  ⟨0, by rw [after_zero, h]⟩

theorem failed {f : Fault} {t : σ} (h : x = .failed f (output t)) :
    Follows p limit n x output post (some (.error f, t)) :=
  ⟨0, by rw [after_zero, h]⟩

theorem of_after {k : Nat} (hk : after p limit k x = y) (h : Follows p limit n y output post r) :
    Follows p limit n x output post r := by
  rcases r with _ | ⟨f | a, t⟩
  · exact Lasts.of_after hk h
  · obtain ⟨j, hj⟩ := h
    exact ⟨k + j, by rw [after_add, hk, hj]⟩
  · obtain ⟨j, hj⟩ := h
    exact ⟨k + j, by rw [after_add, hk, hj]⟩

/-- One step before a run. -/
theorem succ {s : State} (h : Follows p limit n (step p limit s) output post r) :
    Follows p limit (n + 1) (.next s) output post r := by
  rcases r with _ | ⟨f | a, t⟩
  · exact Lasts.succ h
  · obtain ⟨k, hk⟩ := h
    exact ⟨k + 1, hk⟩
  · obtain ⟨k, hk⟩ := h
    exact ⟨k + 1, hk⟩

theorem step {s : State} (hs : Machine.step p limit s = y)
    (h : Follows p limit n y output post r) : Follows p limit n (.next s) output post r :=
  of_after (k := 1) (by rw [after_one, hs]) h

theorem mono (h : Follows p limit n x output post r) (hmn : m ≤ n) :
    Follows p limit m x output post r := by
  rcases r with _ | ⟨f | a, t⟩
  · exact Lasts.mono h hmn
  · exact h
  · exact h

theorem pred {s : State} (h : Follows p limit (n - 1) (Machine.step p limit s) output post r) :
    Follows p limit n (.next s) output post r :=
  h.succ.mono (by omega)

/-- More steps behind a computation that has come to a result. -/
theorem extend {post' : α → σ → Step} (h : Follows p limit n x output post r)
    (hpost : ∀ a t, ∃ k, after p limit k (post a t) = post' a t) :
    Follows p limit n x output post' r := by
  rcases r with _ | ⟨f | a, t⟩
  · exact h
  · exact h
  · obtain ⟨k, hk⟩ := h
    obtain ⟨j, hj⟩ := hpost a t
    exact ⟨k + j, by rw [after_add, hk, hj]⟩

/-- One computation after another. -/
theorem bind {P : α → σ → Prop} {e : Eval σ α} {f : α → Eval σ β} {s : σ} {post' : β → σ → Step}
    (h : Follows p limit n x output post (e s)) (hens : Ensures P (e s))
    (hf : ∀ a t, P a t → Follows p limit n (post a t) output post' (f a t)) :
    Follows p limit n x output post' ((e >>= f) s) := by
  rw [Eval.bind_apply]
  rcases hr : e s with _ | ⟨g | a, t⟩
  · rw [hr] at h
    exact h
  · rw [hr] at h
    exact h
  · rw [hr] at h hens
    obtain ⟨k, hk⟩ := h
    exact of_after hk (hf a t hens)

end Follows

/-- Where a run is when a statement has ended. -/
def landing {σ : Type} (stop leaving again : σ → Step) (returned : Value → σ → Step) :
    Ending → σ → Step
  | .normal => stop
  | .leave => leaving
  | .next => again
  | .ret v => returned v

namespace Follows

variable {σ : Type} {n : Nat} {output : σ → String} {R : σ → Prop} {result : DataType}
  {test : Eval σ Bool} {body : Eval σ Ending} {advance : Eval σ Unit}
  {top inside again outside : σ → Step} {decide : Bool → σ → State} {returned : Value → σ → Step}

/-- A loop that decides before each round whether it ends. The decision is a step, so a loop whose
rounds are used up has gone on for as many steps. -/
theorem loop
    (htest : ∀ s, R s → Follows p limit n (top s) output (fun b t => .next (decide b t)) (test s))
    (htest' : ∀ s, R s → Ensures (fun _ t => R t) (test s))
    (hdecide : ∀ b s, R s →
      Machine.step p limit (decide b s) = if b then inside s else outside s)
    (hbody : ∀ s, R s → Follows p limit n (inside s) output
      (landing again outside again returned) (body s))
    (hbody' : ∀ s, R s → Ensures (Ending.Fits result true R R) (body s))
    (hadvance : ∀ s, R s → Follows p limit n (again s) output (fun _ => top) (advance s))
    (hadvance' : ∀ s, R s → Ensures (fun _ t => R t) (advance s))
    {fuel : Nat} (hfuel : fuel ≤ n) {s : σ} (hs : R s) (leaving next : σ → Step) :
    Follows p limit fuel (top s) output (landing outside leaving next returned)
      (Eval.loop test body advance fuel s) := by
  induction fuel generalizing s with
  | zero => exact fun k hk => absurd hk (Nat.not_lt_zero k)
  | succ fuel ih =>
      have hless : fuel ≤ n := Nat.le_of_succ_le hfuel
      have hround : ∀ u, R u → Follows p limit fuel (again u) output
          (landing outside leaving next returned) ((do
            advance
            Eval.loop test body advance fuel : Eval σ Ending) u) := by
        intro u hu
        exact ((hadvance u hu).mono hless).bind (hadvance' u hu) fun _ w hw => ih hless hw
      refine ((htest s hs).mono hfuel).bind (htest' s hs) fun b t ht => succ ?_
      rw [hdecide b t ht]
      cases b with
      | false => exact here rfl
      | true =>
          refine ((hbody t ht).mono hless).bind (hbody' t ht) fun ending u hu => ?_
          cases ending with
          | normal => exact hround u hu
          | next => exact hround u hu.2
          | leave => exact here rfl
          | ret v => exact here rfl

/-- A loop that is only left from inside. Here the jump back to its start is the step. -/
theorem forEver {bottom : σ → State}
    (hbody : ∀ s, R s → Follows p limit n (top s) output
      (landing again outside again returned) (body s))
    (hbody' : ∀ s, R s → Ensures (Ending.Fits result true R R) (body s))
    (hadvance : ∀ s, R s →
      Follows p limit n (again s) output (fun _ t => .next (bottom t)) (advance s))
    (hadvance' : ∀ s, R s → Ensures (fun _ t => R t) (advance s))
    (hback : ∀ s, R s → Machine.step p limit (bottom s) = top s)
    {fuel : Nat} (hfuel : fuel ≤ n) {s : σ} (hs : R s) (leaving next : σ → Step) :
    Follows p limit fuel (top s) output (landing outside leaving next returned)
      (Eval.loop (return true) body advance fuel s) := by
  induction fuel generalizing s with
  | zero => exact fun k hk => absurd hk (Nat.not_lt_zero k)
  | succ fuel ih =>
      have hround : ∀ u, R u → Follows p limit (fuel + 1) (again u) output
          (landing outside leaving next returned) ((do
            advance
            Eval.loop (return true) body advance fuel : Eval σ Ending) u) := by
        intro u hu
        refine ((hadvance u hu).mono hfuel).bind (hadvance' u hu) fun _ w hw => succ ?_
        rw [hback w hw]
        exact ih (Nat.le_of_succ_le hfuel) hw
      rw [Eval.loop, pure_bind, if_pos rfl]
      refine ((hbody s hs).mono hfuel).bind (hbody' s hs) fun ending u hu => ?_
      cases ending with
      | normal => exact hround u hu
      | next => exact hround u hu.2
      | leave => exact here rfl
      | ret v => exact here rfl

/-- A loop whose test decides between its start and its end. -/
theorem doLoop
    (hbody : ∀ s, R s → Follows p limit n (top s) output
      (landing again outside again returned) (body s))
    (hbody' : ∀ s, R s → Ensures (Ending.Fits result true R R) (body s))
    (htest : ∀ s, R s →
      Follows p limit n (again s) output (fun b t => .next (decide b t)) (test s))
    (htest' : ∀ s, R s → Ensures (fun _ t => R t) (test s))
    (hdecide : ∀ b s, R s →
      Machine.step p limit (decide b s) = if b then top s else outside s)
    {fuel : Nat} (hfuel : fuel ≤ n) {s : σ} (hs : R s) (leaving next : σ → Step) :
    Follows p limit fuel (top s) output (landing outside leaving next returned)
      (Eval.doLoop body test fuel s) := by
  induction fuel generalizing s with
  | zero => exact fun k hk => absurd hk (Nat.not_lt_zero k)
  | succ fuel ih =>
      have hround : ∀ u, R u → Follows p limit (fuel + 1) (again u) output
          (landing outside leaving next returned) ((do
            if ← test then Eval.doLoop body test fuel else return .normal : Eval σ Ending) u) := by
        intro u hu
        refine ((htest u hu).mono hfuel).bind (htest' u hu) fun b w hw => succ ?_
        rw [hdecide b w hw]
        cases b with
        | false => exact here rfl
        | true => exact ih (Nat.le_of_succ_le hfuel) hw
      refine ((hbody s hs).mono hfuel).bind (hbody' s hs) fun ending u hu => ?_
      cases ending with
      | normal => exact hround u hu
      | next => exact hround u hu.2
      | leave => exact here rfl
      | ret v => exact here rfl

end Follows

end

end Scriptlet.Machine
