import Scriptlet.Proofs.Machine.Bounds
import Scriptlet.Proofs.Machine.Isolation

namespace Scriptlet.Machine

/-!
# The limit of active calls

Only entering a call reads the limit. Runs of one call under two limits are the same step by step
until the smaller limit refuses a call, and the other run goes on from what was printed by then.
-/

open Code (Instr Method Module Handle)

/-- All that has been printed so far. -/
def Step.output : Step → String
  | .next s => s.output
  | .done _ output => output
  | .failed _ output => output

/-- Whatever else happened, what had been printed is still there. -/
def Step.Extends (printed : String) (x : Step) : Prop :=
  ∃ more, x.output = printed ++ more

/-- The next step is a call, and it is up to the limit whether the call is entered. -/
def State.Calls (p : Program) (s : State) : Prop :=
  ∃ callee args stack frames, frames.length = s.frames.length ∧ depth frames = depth s.frames ∧
    ∀ limit, step p limit s = enter p limit callee args stack frames s.output

/-- A run is refused a call in its step `n`, since just as many calls are active as the limit
allows. Step 0 is the call that begins the run. -/
inductive Refused (p : Program) (limit : Nat) (h : Handle) (args : List Value) :
    Nat → String → Prop
  | first (hlimit : limit = 0)
      (hstart : ∀ limit, start p limit h args = enter p limit h args #[] [] "") :
      Refused p limit h args 0 ""
  | inner (n : Nat) (s : State) (hs : after p limit n (start p limit h args) = .next s)
      (hcalls : s.Calls p) (hlimit : s.frames.length = limit) :
      Refused p limit h args (n + 1) s.output

section

variable {p : Program} {limit : Nat} {stack : Array Value} {frame : Frame} {rest : List Frame}
  {output printed : String}

theorem Step.Extends.refl (x : Step) : x.Extends x.output :=
  ⟨"", String.append_empty.symm⟩

theorem Step.Extends.trans {x y : Step} (hx : x.Extends printed) (hy : y.Extends x.output) :
    y.Extends printed := by
  obtain ⟨first, hfirst⟩ := hx
  obtain ⟨second, hsecond⟩ := hy
  exact ⟨first ++ second, by rw [hsecond, hfirst, String.append_assoc]⟩

theorem extends_next (stack : Array Value) (frames : List Frame) (output : String) :
    (Step.next ⟨stack, frames, output⟩).Extends output :=
  .refl (.next ⟨stack, frames, output⟩)

theorem extends_failed (f : Fault) (output : String) : (Step.failed f output).Extends output :=
  .refl (.failed f output)

theorem extends_push (stack : Array Value) (frames : List Frame) (output : String)
    (r : Except Fault Value) : (push stack frames output r).Extends output := by
  cases r with
  | ok v => exact extends_next _ _ _
  | error f => exact extends_failed f output

theorem extends_withTop {k : Value → Array Value → Step}
    (hk : ∀ v stack, (k v stack).Extends output) : (withTop stack output k).Extends output :=
  withTop_of hk (extends_failed _ output) stack

theorem extends_withCondition {k : Bool → Array Value → Step}
    (hk : ∀ b stack, (k b stack).Extends output) :
    (withCondition stack output k).Extends output :=
  withCondition_of hk (extends_failed _ output) (fun _ => extends_failed _ output) stack

theorem extends_withOperands {n : Nat} {k : List Value → Array Value → Step}
    (hk : ∀ args stack, (k args stack).Extends output) :
    (withOperands n stack output k).Extends output :=
  withOperands_of hk (extends_failed _ output) stack

theorem extends_leave (frame : Frame) (rest : List Frame) (stack : Array Value) (output : String)
    (result : Option Value) : (leave frame rest stack output result).Extends output := by
  cases rest with
  | nil => exact .refl (.done _ output)
  | cons next rest => cases result <;> exact extends_next _ _ _

theorem extends_enter (h : Handle) (args : List Value) (stack : Array Value) (frames : List Frame)
    (output : String) : (enter p limit h args stack frames output).Extends output := by
  unfold enter
  split
  · exact extends_failed _ _
  · split
    · exact extends_failed _ _
    · exact extends_next _ _ _

/-- Only a routine prints, and it adds to what was printed. -/
theorem extends_execute (m : Method) (i : Instr) :
    (execute p limit m i stack frame rest output).Extends output := by
  cases i with
  | const n | load n =>
      simp only [execute]
      split
      · exact extends_next _ _ _
      · exact extends_failed _ _
  | store n =>
      simp only [execute]
      refine extends_withTop fun v stack => ?_
      split
      · exact extends_next _ _ _
      · exact extends_failed _ _
  | pop | dup =>
      simp only [execute]
      exact extends_withTop fun _ _ => extends_next _ _ _
  | nop | jump n => exact extends_next _ _ _
  | binary op =>
      simp only [execute]
      exact extends_withTop fun _ _ => extends_withTop fun _ _ => extends_push _ _ _ _
  | unary op | convert t | unbox t =>
      simp only [execute]
      exact extends_withTop fun _ _ => extends_push _ _ _ _
  | concat =>
      simp only [execute]
      exact extends_withTop fun _ _ => extends_withTop fun _ _ => extends_next _ _ _
  | jumpIfFalse n | jumpIfTrue n =>
      simp only [execute]
      refine extends_withCondition fun b stack => ?_
      cases b <;> exact extends_next _ _ _
  | call c k =>
      simp only [execute]
      split
      · exact extends_failed _ _
      · exact extends_withOperands fun _ _ => extends_enter _ _ _ _ _
  | routine r =>
      simp only [execute]
      refine extends_withOperands fun args stack => ?_
      split
      · exact extends_next _ _ _
      · next text _ => exact ⟨text, rfl⟩
      · exact extends_failed _ _
  | ret =>
      simp only [execute]
      exact extends_withTop fun _ _ => extends_leave _ _ _ _ _
  | retVoid => exact extends_leave _ _ _ _ _
  | throw =>
      simp only [execute]
      exact extends_withTop fun _ _ => extends_failed _ _

theorem extends_step (s : State) : (step p limit s).Extends s.output := by
  obtain ⟨stack, frames, output⟩ := s
  cases frames with
  | nil => exact extends_failed _ _
  | cons frame rest =>
      obtain ⟨hstep, -⟩ | ⟨hstep, -⟩ | ⟨m, i, hstep, -⟩ := step_cases p limit frame
      · obtain ⟨f, hfailed⟩ := hstep stack rest output
        rw [hfailed]
        exact extends_failed f output
      · rw [hstep]
        exact extends_leave _ _ _ _ _
      · rw [hstep]
        exact extends_execute m i

/-- A run takes back nothing of what it has printed. -/
theorem extends_after (n : Nat) (x : Step) : (after p limit n x).Extends x.output := by
  induction n generalizing x with
  | zero =>
      rw [after_zero]
      exact .refl x
  | succ n ih =>
      cases x with
      | next s => exact (extends_step s).trans (ih (step p limit s))
      | done v output => exact .refl (.done v output)
      | failed f output => exact .refl (.failed f output)

theorem extends_after_of_le {m n : Nat} (hmn : m ≤ n) (x : Step) :
    (after p limit n x).Extends (after p limit m x).output := by
  obtain ⟨k, rfl⟩ := Nat.exists_eq_add_of_le hmn
  rw [after_add]
  exact extends_after k _

theorem enter_eq_refusal {frames : List Frame} (hlimit : limit ≤ depth frames) (h : Handle)
    (args : List Value) :
    enter p limit h args stack frames output = .failed (.failed .stackExhausted) output :=
  if_pos hlimit

theorem enter_eq_enter {d d' : Nat} {frames : List Frame} (hd : depth frames < d) (hd' : d ≤ d')
    (h : Handle) (args : List Value) :
    enter p d h args stack frames output = enter p d' h args stack frames output := by
  unfold enter
  rw [if_neg (Nat.not_le.2 hd), if_neg (Nat.not_le.2 (Nat.lt_of_lt_of_le hd hd'))]

/-- An instruction other than a call that is made does not read the limit. -/
theorem execute_limit (p : Program) (m : Method) (i : Instr) (stack : Array Value) (frame : Frame)
    (rest : List Frame) (output : String) :
    (∀ d d', execute p d m i stack frame rest output = execute p d' m i stack frame rest output) ∨
      ∃ callee args below, ∀ limit, execute p limit m i stack frame rest output =
        enter p limit callee args below (frame :: rest) output := by
  cases i with
  | call c k =>
      cases hcallee : p.method? ⟨c, k⟩ with
      | none => exact .inl fun d d' => by simp only [execute, hcallee]
      | some callee =>
          by_cases hroom : callee.params.length ≤ stack.size
          · refine .inr ⟨⟨c, k⟩, (stack.extract (stack.size - callee.params.length)).toList,
              stack.shrink (stack.size - callee.params.length), fun limit => ?_⟩
            simp only [execute, hcallee, withOperands, if_pos hroom]
          · refine .inl fun d d' => ?_
            simp only [execute, hcallee, withOperands, if_neg hroom]
  | _ => exact .inl fun d d' => rfl

/-- A step reads the limit only in order to enter a call. -/
theorem step_limit (p : Program) (s : State) :
    (∀ d d', step p d s = step p d' s) ∨ s.Calls p := by
  obtain ⟨stack, frames, output⟩ := s
  cases frames with
  | nil => exact .inl fun d d' => rfl
  | cons frame rest =>
      cases hm : p.method? frame.handle with
      | none => exact .inl fun d d' => by simp only [step, hm]
      | some m =>
          cases hi : m.code[frame.position]? with
          | none => exact .inl fun d d' => by simp only [step, hm, hi]
          | some i =>
              obtain hsame | ⟨callee, args, below, henter⟩ := execute_limit p m i stack
                { frame with position := frame.position + 1 } rest output
              · refine .inl fun d d' => ?_
                simp only [step, hm, hi]
                exact hsame d d'
              · refine .inr ⟨callee, args, below,
                  { frame with position := frame.position + 1 } :: rest, rfl, rfl, fun limit => ?_⟩
                simp only [step, hm, hi]
                exact henter limit

/-- The first call of a run is refused only if no call may be active. -/
theorem start_eq_start {d d' : Nat} (hd : d ≤ d') (h : Handle) (args : List Value) :
    start p d h args = start p d' h args ∨ Refused p d h args 0 "" := by
  cases hm : p.method? h with
  | none => exact .inl (by simp only [start, hm])
  | some m =>
      by_cases hargs : args.length = m.params.length
      · have hstart : ∀ limit, start p limit h args = enter p limit h args #[] [] "" :=
          fun limit => by simp only [start, hm, if_pos hargs]
        rcases Nat.eq_zero_or_pos d with hzero | hpos
        · exact .inr (.first hzero hstart)
        · refine .inl ?_
          rw [hstart, hstart]
          exact enter_eq_enter hpos hd h args
      · exact .inl (by simp only [start, hm, if_neg hargs])

/-- Two runs are in step until the smaller limit is reached at a call. -/
theorem step_eq_step {d d' : Nat} (hd : d ≤ d') (s : State) :
    step p d s = step p d' s ∨ s.Calls p ∧ d ≤ depth s.frames := by
  obtain hsame | hcalls := step_limit p s
  · exact .inl (hsame d d')
  · by_cases hdepth : d ≤ depth s.frames
    · exact .inr ⟨hcalls, hdepth⟩
    · obtain ⟨callee, args, below, frames, -, hcount, henter⟩ := hcalls
      refine .inl ?_
      rw [henter, henter]
      exact enter_eq_enter (hcount ▸ Nat.not_le.1 hdepth) hd callee args

/-- Runs from one state are the same at every step, or they get to a call that the smaller limit
does not allow. -/
theorem after_eq_after {d d' : Nat} (hd : d ≤ d') (x : Step) :
    (∀ n, after p d n x = after p d' n x) ∨
      ∃ n s, after p d n x = .next s ∧ after p d' n x = .next s ∧ s.Calls p ∧
        d ≤ depth s.frames := by
  by_cases hcall : ∃ n s, after p d n x = .next s ∧ after p d' n x = .next s ∧ s.Calls p ∧
      d ≤ depth s.frames
  · exact .inr hcall
  · -- No call on the way is refused, so one step more leaves the runs together.
    refine .inl fun n => ?_
    induction n with
    | zero => rw [after_zero, after_zero]
    | succ n ih =>
        rw [after_add, after_add, ← ih]
        cases hx : after p d n x with
        | done v output => rw [after_done, after_done]
        | failed f output => rw [after_failed, after_failed]
        | next s =>
            obtain hsame | ⟨hcalls, hdepth⟩ := step_eq_step hd s
            · rw [after_succ_next, after_succ_next, hsame, after_zero, after_zero]
            · exact absurd ⟨n, s, hx, ih ▸ hx, hcalls, hdepth⟩ hcall

theorem start_within (p : Program) (limit : Nat) (h : Handle) (args : List Value) :
    (start p limit h args).Within p limit ∨
      ∃ f, start p limit h args = .failed f "" := by
  cases hm : p.method? h with
  | none => exact .inr ⟨_, by simp only [start, hm]; rfl⟩
  | some m =>
      by_cases hargs : args.length = m.params.length
      · exact .inl (within_start hm hargs)
      · exact .inr ⟨_, by simp only [start, hm, if_neg hargs]; rfl⟩

/-- The frames of a run are within its program, whatever it was started with. -/
theorem within_of_after {h : Handle} {args : List Value} {n : Nat} {s : State}
    (hs : after p limit n (start p limit h args) = .next s) : Within p limit s.frames := by
  obtain hwithin | ⟨f, hf⟩ := start_within p limit h args
  · have hlater := within_after hwithin n
    rwa [hs] at hlater
  · rw [hf, after_failed] at hs
    cases hs

/-- A refused call ends the run. -/
theorem Refused.invoke_eq {h : Handle} {args : List Value} {n : Nat}
    (hrefused : Refused p limit h args n output) :
    invoke p limit n h args = some ⟨.error (.failed .stackExhausted), output⟩ := by
  rw [invoke, runFrom_eq_outcome?]
  cases hrefused with
  | first hlimit hstart =>
      rw [after_zero, hstart, enter_eq_refusal (Nat.le_of_eq hlimit)]
      rfl
  | inner n s hs hcalls hlimit =>
      have hdepth := (within_of_after hs).counted.depth_eq
      obtain ⟨callee, args', below, frames, -, hcount, henter⟩ := hcalls
      have hreached : limit ≤ depth frames := by omega
      rw [after_add, hs, after_succ_next, after_zero, henter, enter_eq_refusal hreached]
      rfl

end

/-- Runs that begin in the same way are the same at every step, or the smaller limit refuses a call
and the other run goes on from what was printed by then. -/
theorem refused_or_after {p : Program} {h : Handle} {args : List Value} {d d' : Nat} (hd : d ≤ d')
    (hstart : start p d h args = start p d' h args) :
    (∃ n output, Refused p d h args n output ∧
        ∀ m ≥ n, (after p d' m (start p d' h args)).Extends output) ∨
      ∀ n, after p d n (start p d h args) = after p d' n (start p d' h args) := by
  rw [← hstart]
  obtain hsame | ⟨n, s, hs, hs', hcalls, hdepth⟩ := after_eq_after (p := p) hd (start p d h args)
  · exact .inr hsame
  · have hwithin := within_of_after hs
    have hactive : s.frames.length = d := by
      have hbound := hwithin.bounded
      have hcount := hwithin.counted.depth_eq
      omega
    refine .inl ⟨n + 1, s.output, .inner n s hs hcalls hactive, fun m hm => ?_⟩
    have hlater : (after p d' m (start p d h args)).Extends
        (after p d' n (start p d h args)).output := extends_after_of_le (Nat.le_of_succ_le hm) _
    rwa [hs'] at hlater

/-- A limit on the active calls does nothing but end a run early. A run that it ends is refused a
call when as many calls are active as the limit allows, and a run with a greater limit goes on from
what was printed by then; any other run is the same in its result, its fault, its output and its
length under a greater limit. -/
theorem refused_or_same (p : Program) (h : Handle) (args : List Value) {d d' : Nat} (hd : d ≤ d') :
    (∃ n output, Refused p d h args n output ∧
        invoke p d n h args = some ⟨.error (.failed .stackExhausted), output⟩ ∧
        ∀ m ≥ n, (after p d' m (start p d' h args)).Extends output) ∨
      ∀ n, invoke p d n h args = invoke p d' n h args := by
  obtain hstart | hfirst := start_eq_start (p := p) hd h args
  · obtain ⟨n, output, hrefused, hlater⟩ | hsame := refused_or_after hd hstart
    · exact .inl ⟨n, output, hrefused, hrefused.invoke_eq, hlater⟩
    · exact .inr fun n => by rw [invoke, invoke, runFrom_eq_outcome?, runFrom_eq_outcome?, hsame]
  · exact .inl ⟨0, "", hfirst, hfirst.invoke_eq, fun m _ => ⟨_, String.empty_append.symm⟩⟩

/-- `Main` prints a text and calls the other method, which prints another one. -/
def relay : Module :=
  ⟨"M", #[⟨"C", #[
    ⟨"Main", true, false, [], [], .void, 0, #[.string "to"],
      #[.const 0, .routine .write, .call 0 1]⟩,
    ⟨"Pass", true, false, [], [], .void, 0, #[.string "day"], #[.const 0, .routine .write]⟩]⟩]⟩

theorem refused_relay :
    ∃ p, Program.ofModule relay = .ok p ∧ 1 ≤ 2 ∧
      invoke p 2 7 ⟨0, 0⟩ [] = some ⟨.ok .void, "today"⟩ ∧
      ∃ n output, Refused p 1 ⟨0, 0⟩ [] n output ∧
        invoke p 1 n ⟨0, 0⟩ [] = some ⟨.error (.failed .stackExhausted), output⟩ ∧
        ∀ m ≥ n, (after p 2 m (start p 2 ⟨0, 0⟩ [])).Extends output := by
  have hp := Program.ofModule_eq_ok (m := relay) rfl
  refine ⟨_, hp, by decide, rfl, ?_⟩
  obtain hrefused | hsame := refused_or_same ⟨relay, rfl⟩ ⟨0, 0⟩ [] (show 1 ≤ 2 by decide)
  · exact hrefused
  · have hshort : invoke ⟨relay, rfl⟩ 1 7 ⟨0, 0⟩ [] =
        some ⟨.error (.failed .stackExhausted), "to"⟩ := rfl
    have hlong : invoke ⟨relay, rfl⟩ 2 7 ⟨0, 0⟩ [] = some ⟨.ok .void, "today"⟩ := rfl
    have hdiffer := (hshort.symm.trans (hsame 7)).trans hlong
    cases hdiffer

end Scriptlet.Machine
