import Scriptlet.Machine.Run

namespace Scriptlet.Machine

/-!
# Traces

What holds of a step that pops its operands, and where a run stands after a number of steps. A run
has an outcome within some fuel exactly if it has ended after as many steps.
-/

/-! ### Operands -/

section

variable {P : Step → Prop} {output : String}

/-- A property of what follows the popping of an operand and of the fault that there is none. -/
theorem withTop_of {k : Value → Array Value → Step} (hk : ∀ v stack, P (k v stack))
    (hnone : P (.failed (.defective .underflow) output)) (stack : Array Value) :
    P (withTop stack output k) := by
  unfold withTop
  split
  · exact hk _ _
  · exact hnone

theorem withCondition_of {k : Bool → Array Value → Step} (hk : ∀ b stack, P (k b stack))
    (hnone : P (.failed (.defective .underflow) output))
    (hother : ∀ type, P (.failed (.defective (.branch type)) output)) (stack : Array Value) :
    P (withCondition stack output k) := by
  refine withTop_of (fun v stack => ?_) hnone stack
  split
  · exact hk _ _
  · exact hother _

theorem withOperands_of {n : Nat} {k : List Value → Array Value → Step}
    (hk : ∀ args stack, P (k args stack)) (hnone : P (.failed (.defective .underflow) output))
    (stack : Array Value) : P (withOperands n stack output k) := by
  unfold withOperands
  split
  · exact hk _ _
  · exact hnone

end

/-! ### Steps -/

/-- What `n` more steps lead to. A run that has ended stays as it is. -/
def after (p : Program) (limit : Nat) : Nat → Step → Step
  | 0, x => x
  | n + 1, .next s => after p limit n (step p limit s)
  | _ + 1, x => x

/-- The outcome of a run that has ended. -/
def Step.outcome? : Step → Option Outcome
  | .next _ => none
  | .done v output => some ⟨.ok v, output⟩
  | .failed f output => some ⟨.error f, output⟩

section

variable {p : Program} {limit : Nat}

@[simp] theorem after_zero (x : Step) : after p limit 0 x = x := by
  cases x <;> rfl

@[simp] theorem after_succ_next (n : Nat) (s : State) :
    after p limit (n + 1) (.next s) = after p limit n (step p limit s) := rfl

@[simp] theorem after_done (n : Nat) (v : Value) (output : String) :
    after p limit n (.done v output) = .done v output := by
  cases n <;> rfl

@[simp] theorem after_failed (n : Nat) (f : Fault) (output : String) :
    after p limit n (.failed f output) = .failed f output := by
  cases n <;> rfl

theorem after_add (m n : Nat) (x : Step) :
    after p limit (m + n) x = after p limit n (after p limit m x) := by
  induction m generalizing x with
  | zero => simp
  | succ m ih =>
      cases x with
      | next s =>
          rw [Nat.add_right_comm, after_succ_next, after_succ_next]
          exact ih _
      | done v output => simp
      | failed f output => simp

theorem runFrom_eq_outcome? (n : Nat) (x : Step) :
    runFrom p limit n x = (after p limit n x).outcome? := by
  induction n generalizing x with
  | zero => cases x <;> rfl
  | succ n ih =>
      cases x with
      | next s => exact ih _
      | done v output => rfl
      | failed f output => rfl

theorem outcome?_after_of_outcome? {x : Step} {o : Outcome} (h : x.outcome? = some o) (n : Nat) :
    (after p limit n x).outcome? = some o := by
  cases x with
  | next s => simp [Step.outcome?] at h
  | done v output => simpa using h
  | failed f output => simpa using h

/-- A run has one outcome, whatever the number of steps. -/
theorem outcome?_unique {m n : Nat} {x : Step} {a b : Outcome}
    (ha : (after p limit m x).outcome? = some a) (hb : (after p limit n x).outcome? = some b) :
    a = b := by
  have hm : (after p limit n (after p limit m x)).outcome? = some a :=
    outcome?_after_of_outcome? ha n
  have hn : (after p limit m (after p limit n x)).outcome? = some b :=
    outcome?_after_of_outcome? hb m
  rw [← after_add] at hm hn
  rw [Nat.add_comm] at hn
  exact Option.some.inj (hm.symm.trans hn)

end

end Scriptlet.Machine
