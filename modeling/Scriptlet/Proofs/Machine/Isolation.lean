import Scriptlet.Proofs.Machine.Loading
import Scriptlet.Proofs.Machine.Trace

namespace Scriptlet.Machine

/-!
# Frames on the shared stack

An instruction leaves alone whatever lies below the operands that it demands. A call whose
instructions demand no more than what lies above the bases of their frames hands the operands of its
caller back as it found them. Nothing but that keeps the frames apart: the base of a frame matters
only when it returns, and a method may take the operands of its caller.
-/

open Code (Instr Method Module)

/-- How many operands an instruction needs. -/
def demand (p : Program) : Instr → Nat
  | .const _ | .load _ | .nop | .jump _ | .retVoid => 0
  | .store _ | .pop | .dup | .unary _ | .convert _ | .unbox _ | .jumpIfFalse _ | .jumpIfTrue _
  | .ret | .throw => 1
  | .binary _ | .concat => 2
  | .call c k => ((p.method? ⟨c, k⟩).map fun m => m.params.length).getD 0
  | .routine r => r.arity

/-- The instruction that a frame is about to execute; none at the end of the code. -/
def Frame.instr? (p : Program) (frame : Frame) : Option Instr :=
  (p.method? frame.handle).bind fun m => m.code[frame.position]?

def Frame.demand (p : Program) (frame : Frame) : Nat :=
  ((frame.instr? p).map (Machine.demand p)).getD 0

/-- The innermost frame demands no more than the operands above its base. -/
def Frugal (p : Program) (s : State) : Prop :=
  ∀ frame ∈ s.frames.head?, frame.base + frame.demand p ≤ s.stack.size

/-- The value that the innermost frame hands over if it returns now; none for a return without
one. -/
def State.returned? (p : Program) (s : State) : Option Value :=
  if s.frames.head?.bind (Frame.instr? p) = some .ret then s.stack.back? else none

/-- What an instruction does to frames and operands, if it demands `d` operands in a frame of the
given base: it goes on in the frame, enters another one, or leaves it. -/
inductive Effect (i : Option Instr) (d : Nat) (stack : Array Value) (base : Nat)
    (rest : List Frame) (s : State) : Prop
  | stay (frame : Frame) (pushed : List Value)
      (hframes : s.frames = frame :: rest) (hbase : frame.base = base)
      (hstack : s.stack.toList = stack.toList.take (stack.size - d) ++ pushed)
  | enter (callee frame : Frame)
      (hframes : s.frames = callee :: frame :: rest) (hbase : frame.base = base)
      (hcallee : callee.base = stack.size - d)
      (hstack : s.stack.toList = stack.toList.take (stack.size - d))
  | leave (result : Option Value)
      (hresult : result = if i = some .ret then stack.back? else none)
      (hframes : s.frames = rest) (hrest : rest ≠ [])
      (hstack : s.stack.toList = stack.toList.take (min base (stack.size - d)) ++ result.toList)

section

variable {p : Program} {limit : Nat} {stack : Array Value} {frame : Frame} {rest : List Frame}
  {output : String} {s : State}

theorem withTop_eq_next {k : Value → Array Value → Step}
    (h : withTop stack output k = .next s) :
    ∃ v, stack.back? = some v ∧ 1 ≤ stack.size ∧ k v stack.pop = .next s := by
  unfold withTop at h
  split at h
  · next v hv =>
      have hsize : stack.size ≠ 0 := fun h0 => by
        rw [Array.eq_empty_of_size_eq_zero h0] at hv
        cases hv
      exact ⟨v, hv, Nat.pos_of_ne_zero hsize, h⟩
  · cases h

theorem withCondition_eq_next {k : Bool → Array Value → Step}
    (h : withCondition stack output k = .next s) :
    ∃ b, 1 ≤ stack.size ∧ k b stack.pop = .next s := by
  obtain ⟨v, -, hsize, h⟩ := withTop_eq_next h
  split at h
  · next b => exact ⟨b, hsize, h⟩
  · cases h

theorem withOperands_eq_next {n : Nat} {k : List Value → Array Value → Step}
    (h : withOperands n stack output k = .next s) :
    ∃ args, n ≤ stack.size ∧ k args (stack.shrink (stack.size - n)) = .next s := by
  unfold withOperands at h
  split at h
  · next hn => exact ⟨_, hn, h⟩
  · cases h

theorem toList_pop_eq_take (stack : Array Value) :
    stack.pop.toList = stack.toList.take (stack.size - 1) := by
  rw [Array.toList_pop, List.dropLast_eq_take, Array.length_toList]

theorem toList_pop_pop_eq_take (stack : Array Value) :
    stack.pop.pop.toList = stack.toList.take (stack.size - 2) := by
  rw [toList_pop_eq_take, toList_pop_eq_take, List.take_take, Array.size_pop]
  congr 1
  omega

theorem toList_shrink_eq_take (stack : Array Value) (n : Nat) :
    (stack.shrink n).toList = stack.toList.take n := by
  simp

/-- An instruction that pushes a value in place of what it demands. -/
theorem effect_push {i : Option Instr} {d : Nat} {below : Array Value} (v : Value)
    (hbelow : below.toList = stack.toList.take (stack.size - d)) :
    Effect i d stack frame.base rest ⟨below.push v, frame :: rest, output⟩ := by
  refine .stay frame [v] rfl rfl ?_
  rw [Array.toList_push, hbelow]

theorem effect_of_push {i : Option Instr} {d : Nat} {below : Array Value} {r : Except Fault Value}
    (hbelow : below.toList = stack.toList.take (stack.size - d))
    (h : push below (frame :: rest) output r = .next s) : Effect i d stack frame.base rest s := by
  cases r with
  | ok v =>
      cases h
      exact effect_push v hbelow
  | error f => cases h

theorem effect_of_leave {i : Option Instr} {d : Nat} {below : Array Value} {result : Option Value}
    (hbelow : below.toList = stack.toList.take (stack.size - d))
    (hresult : result = if i = some .ret then stack.back? else none)
    (h : leave frame rest below output result = .next s) : Effect i d stack frame.base rest s := by
  unfold leave at h
  split at h
  · cases h
  · next hrest =>
      have hshrink : (below.shrink frame.base).toList =
          stack.toList.take (min frame.base (stack.size - d)) := by
        rw [toList_shrink_eq_take, hbelow, List.take_take]
      dsimp only at h
      cases result with
      | none =>
          cases h
          refine .leave none hresult rfl hrest ?_
          rw [hshrink, Option.toList_none, List.append_nil]
      | some v =>
          cases h
          refine .leave (some v) hresult rfl hrest ?_
          rw [Array.toList_push, hshrink, Option.toList_some]

theorem execute_effect {m : Method} {i : Instr}
    (h : execute p limit m i stack frame rest output = .next s) :
    demand p i ≤ stack.size ∧ Effect (some i) (demand p i) stack frame.base rest s := by
  have hkeep : stack.toList = stack.toList.take (stack.size - 0) := by
    rw [Nat.sub_zero, ← Array.length_toList, List.take_length]
  have hpop := toList_pop_eq_take stack
  cases i with
  | const n | load n =>
      simp only [execute] at h
      split at h
      · cases h
        exact ⟨Nat.zero_le _, effect_push _ hkeep⟩
      · cases h
  | store n =>
      simp only [execute] at h
      obtain ⟨v, -, hsize, h⟩ := withTop_eq_next h
      split at h
      · cases h
        refine ⟨hsize, .stay (frame.assign n.toNat v) [] rfl rfl ?_⟩
        rw [hpop, List.append_nil, demand]
      · cases h
  | pop =>
      simp only [execute] at h
      obtain ⟨v, -, hsize, h⟩ := withTop_eq_next h
      cases h
      refine ⟨hsize, .stay frame [] rfl rfl ?_⟩
      rw [hpop, List.append_nil, demand]
  | dup =>
      simp only [execute] at h
      obtain ⟨v, -, hsize, h⟩ := withTop_eq_next h
      cases h
      refine ⟨hsize, .stay frame [v, v] rfl rfl ?_⟩
      rw [Array.toList_push, Array.toList_push, hpop, List.append_assoc, List.singleton_append,
        demand]
  | nop =>
      cases h
      refine ⟨Nat.zero_le _, .stay frame [] rfl rfl ?_⟩
      rw [List.append_nil, demand, ← hkeep]
  | binary op =>
      simp only [execute] at h
      obtain ⟨right, -, -, h⟩ := withTop_eq_next h
      obtain ⟨left, -, hsize, h⟩ := withTop_eq_next h
      rw [Array.size_pop] at hsize
      have hdemand : 2 ≤ stack.size := by omega
      exact ⟨hdemand, effect_of_push (toList_pop_pop_eq_take stack) h⟩
  | unary op =>
      simp only [execute] at h
      obtain ⟨v, -, hsize, h⟩ := withTop_eq_next h
      exact ⟨hsize, effect_of_push hpop h⟩
  | concat =>
      simp only [execute] at h
      obtain ⟨right, -, -, h⟩ := withTop_eq_next h
      obtain ⟨left, -, hsize, h⟩ := withTop_eq_next h
      rw [Array.size_pop] at hsize
      have hdemand : 2 ≤ stack.size := by omega
      cases h
      exact ⟨hdemand, effect_push _ (toList_pop_pop_eq_take stack)⟩
  | convert t | unbox t =>
      simp only [execute] at h
      obtain ⟨v, -, hsize, h⟩ := withTop_eq_next h
      exact ⟨hsize, effect_of_push hpop h⟩
  | jump n =>
      cases h
      refine ⟨Nat.zero_le _, .stay { frame with position := n.toNat } [] rfl rfl ?_⟩
      rw [List.append_nil, demand, ← hkeep]
  | jumpIfFalse n | jumpIfTrue n =>
      simp only [execute] at h
      obtain ⟨b, hsize, h⟩ := withCondition_eq_next h
      have hstack : stack.pop.toList = stack.toList.take (stack.size - 1) ++ [] := by
        rw [hpop, List.append_nil]
      split at h
      all_goals
        cases h
        exact ⟨hsize, .stay _ [] rfl rfl hstack⟩
  | call c k =>
      simp only [execute] at h
      split at h
      · cases h
      · next callee hcallee =>
          have hdemand : demand p (.call c k) = callee.params.length := by
            simp only [demand, hcallee, Option.map_some, Option.getD_some]
          obtain ⟨args, hsize, h⟩ := withOperands_eq_next h
          unfold enter at h
          split at h
          · cases h
          · rw [hcallee] at h
            cases h
            rw [hdemand]
            refine ⟨hsize, .enter _ frame rfl rfl ?_ (toList_shrink_eq_take _ _)⟩
            simp
  | routine r =>
      simp only [execute] at h
      obtain ⟨args, hsize, h⟩ := withOperands_eq_next h
      have hbelow := toList_shrink_eq_take stack (stack.size - r.arity)
      split at h
      · cases h
        exact ⟨hsize, effect_push _ hbelow⟩
      · cases h
        refine ⟨hsize, .stay frame [] rfl rfl ?_⟩
        rw [hbelow, List.append_nil, demand]
      · cases h
  | ret =>
      simp only [execute] at h
      obtain ⟨v, hv, hsize, h⟩ := withTop_eq_next h
      have hresult : some v = if some Instr.ret = some .ret then stack.back? else none := by
        rw [if_pos rfl, hv]
      exact ⟨hsize, effect_of_leave hpop hresult h⟩
  | retVoid => exact ⟨Nat.zero_le _, effect_of_leave hkeep rfl h⟩
  | throw =>
      simp only [execute] at h
      obtain ⟨v, -, -, h⟩ := withTop_eq_next h
      cases h

/-- At the end of the code, a frame demands nothing and returns. -/
theorem step_cases (p : Program) (limit : Nat) (frame : Frame) :
    (∀ stack rest output, ∃ f, step p limit ⟨stack, frame :: rest, output⟩ = .failed f output) ∧
        frame.instr? p = none ∨
    (∀ stack rest output, step p limit ⟨stack, frame :: rest, output⟩ =
        leave frame rest stack output none) ∧ frame.instr? p = none ∨
    ∃ m i, (∀ stack rest output, step p limit ⟨stack, frame :: rest, output⟩ =
        execute p limit m i stack { frame with position := frame.position + 1 } rest output) ∧
      frame.instr? p = some i := by
  unfold Frame.instr?
  cases hm : p.method? frame.handle with
  | none => exact .inl ⟨fun _ _ _ => ⟨_, by simp only [step, hm]; rfl⟩, rfl⟩
  | some m =>
      rw [Option.bind_some]
      cases hi : m.code[frame.position]? with
      | none => exact .inr (.inl ⟨fun _ _ _ => by simp only [step, hm, hi], rfl⟩)
      | some i => exact .inr (.inr ⟨m, i, fun _ _ _ => by simp only [step, hm, hi], rfl⟩)

/-- What a step does that does not end the run. -/
theorem step_effect (h : step p limit ⟨stack, frame :: rest, output⟩ = .next s) :
    frame.demand p ≤ stack.size ∧
      Effect (frame.instr? p) (frame.demand p) stack frame.base rest s := by
  have hkeep : stack.toList = stack.toList.take (stack.size - 0) := by
    rw [Nat.sub_zero, ← Array.length_toList, List.take_length]
  unfold Frame.demand
  obtain ⟨hstep, -⟩ | ⟨hstep, hi⟩ | ⟨m, i, hstep, hi⟩ := step_cases p limit frame
  · obtain ⟨f, hfailed⟩ := hstep stack rest output
    rw [hfailed] at h
    cases h
  · rw [hstep] at h
    rw [hi, Option.map_none, Option.getD_none]
    exact ⟨Nat.zero_le _, effect_of_leave hkeep rfl h⟩
  · rw [hstep] at h
    have heffect := execute_effect h
    rwa [hi, Option.map_some, Option.getD_some]

theorem withTop_of_isEmpty {k : Value → Array Value → Step} (h : stack.size = 0) :
    withTop stack output k = .failed (.defective .underflow) output := by
  obtain rfl := Array.eq_empty_of_size_eq_zero h
  rfl

theorem withTop_eq_underflow {k : Value → Array Value → Step}
    (hk : ∀ v, k v stack.pop = .failed (.defective .underflow) output) :
    withTop stack output k = .failed (.defective .underflow) output := by
  unfold withTop
  split
  · exact hk _
  · rfl

theorem withOperands_eq_underflow {n : Nat} {k : List Value → Array Value → Step}
    (h : stack.size < n) :
    withOperands n stack output k = .failed (.defective .underflow) output := by
  rw [withOperands, if_neg (Nat.not_le.2 h)]

/-- The whole stack is too short for an instruction. -/
theorem execute_underflow {m : Method} {i : Instr} (h : stack.size < demand p i) :
    execute p limit m i stack frame rest output = .failed (.defective .underflow) output := by
  cases i with
  | const _ | load _ | nop | jump _ | retVoid => exact absurd h (Nat.not_lt_zero _)
  | store _ | pop | dup | unary _ | convert _ | unbox _ | jumpIfFalse _ | jumpIfTrue _ | ret
  | throw =>
      have hempty : stack.size = 0 := Nat.lt_one_iff.1 h
      simp only [execute]
      exact withTop_of_isEmpty hempty
  | binary _ | concat =>
      have hone : stack.size < 2 := h
      have hrest : stack.pop.size = 0 := by
        rw [Array.size_pop]
        omega
      simp only [execute]
      exact withTop_eq_underflow fun _ => withTop_of_isEmpty hrest
  | call c k =>
      simp only [execute]
      cases hcallee : p.method? ⟨c, k⟩ with
      | none =>
          rw [demand, hcallee] at h
          exact absurd h (Nat.not_lt_zero _)
      | some callee =>
          rw [demand, hcallee] at h
          exact withOperands_eq_underflow h
  | routine r =>
      simp only [execute]
      exact withOperands_eq_underflow h

/-- A step fails if the whole stack is too short. -/
theorem step_underflow (hframe : frame ∈ s.frames.head?) (h : s.stack.size < frame.demand p) :
    step p limit s = .failed (.defective .underflow) s.output := by
  obtain ⟨stack, frames, output⟩ := s
  obtain ⟨rest, rfl⟩ := List.head?_eq_some_iff.1 hframe
  unfold Frame.demand at h
  obtain ⟨-, hi⟩ | ⟨-, hi⟩ | ⟨m, i, hstep, hi⟩ := step_cases p limit frame
  · rw [hi] at h
    exact absurd h (Nat.not_lt_zero _)
  · rw [hi] at h
    exact absurd h (Nat.not_lt_zero _)
  · rw [hi] at h
    rw [hstep]
    exact execute_underflow h

/-- Frames of a call with base `base` that was made by `callers`, and of the calls that it makes. -/
inductive Atop (base : Nat) (callers : List Frame) : List Frame → Prop
  | callee (frame : Frame) (hbase : frame.base = base) : Atop base callers (frame :: callers)
  | inner (frame : Frame) (rest : List Frame) (hbase : base ≤ frame.base)
      (hrest : Atop base callers rest) : Atop base callers (frame :: rest)

theorem Atop.base_le {base : Nat} {callers : List Frame} (h : Atop base callers (frame :: rest)) :
    base ≤ frame.base := by
  cases h with
  | callee _ hbase => exact Nat.le_of_eq hbase.symm
  | inner _ _ hbase _ => exact hbase

theorem Atop.replace {base : Nat} {callers : List Frame} {frame' : Frame}
    (h : Atop base callers (frame :: rest)) (hsame : frame'.base = frame.base) :
    Atop base callers (frame' :: rest) := by
  cases h with
  | callee _ hbase => exact .callee frame' (hsame.trans hbase)
  | inner _ _ hbase hrest => exact .inner frame' rest (hsame ▸ hbase) hrest

theorem Atop.length_lt {base : Nat} {callers frames : List Frame} (h : Atop base callers frames) :
    callers.length < frames.length := by
  induction h with
  | callee _ _ => exact Nat.lt_succ_self _
  | inner _ _ _ _ ih => exact Nat.lt_succ_of_lt ih

/-- A call over the operands `below` is active, and they are as they were. -/
structure Inside (below : List Value) (callers : List Frame) (s : State) : Prop where
  frames : Atop below.length callers s.frames
  operands : below <+: s.stack.toList

/-- The call has returned to its callers with their operands as they were and its result, if there
is one, on top of them. -/
structure Returned (below : List Value) (result : Option Value) (callers : List Frame)
    (s : State) : Prop where
  frames : s.frames = callers
  operands : s.stack.toList = below ++ result.toList

variable {below : List Value} {callers : List Frame}

/-- What one frugal step of a call does to the operands of its caller. -/
theorem inside_step (h : Inside below callers s) (hfrugal : Frugal p s) {s' : State}
    (hstep : step p limit s = .next s') :
    Inside below callers s' ∨ Returned below (s.returned? p) callers s' := by
  obtain ⟨stack, frames, output⟩ := s
  obtain ⟨hframes, hbelow⟩ := h
  cases frames with
  | nil => cases hframes
  | cons frame rest =>
      have hroom : frame.base + frame.demand p ≤ stack.size := hfrugal frame rfl
      have hbase := hframes.base_le
      have hkept : below <+: stack.toList.take (stack.size - frame.demand p) :=
        List.prefix_take_iff.2 ⟨hbelow, by omega⟩
      obtain ⟨-, heffect⟩ := step_effect hstep
      cases heffect with
      | stay frame' pushed hframes' hbase' hstack =>
          refine .inl ⟨?_, ?_⟩
          · rw [hframes']
            exact hframes.replace hbase'
          · rw [hstack]
            exact hkept.trans (List.prefix_append _ _)
      | enter callee frame' hframes' hbase' hcallee hstack =>
          have hinner : below.length ≤ callee.base := by omega
          refine .inl ⟨?_, ?_⟩
          · rw [hframes']
            exact .inner callee _ hinner (hframes.replace hbase')
          · rw [hstack]
            exact hkept
      | leave result hresult hframes' hrest hstack =>
          have hcut : min frame.base (stack.size - frame.demand p) = frame.base := by omega
          rw [hcut] at hstack
          cases hframes with
          | callee _ hown =>
              refine .inr ⟨hframes', ?_⟩
              rw [hstack, hown, ← List.prefix_iff_eq_take.1 hbelow, hresult]
              rfl
          | inner _ _ _ hatop =>
              refine .inl ⟨?_, ?_⟩
              · rw [hframes']
                exact hatop
              · rw [hstack]
                have hfront : below <+: stack.toList.take frame.base :=
                  List.prefix_take_iff.2 ⟨hbelow, hbase⟩
                exact hfront.trans (List.prefix_append _ _)

theorem inside_after {n : Nat} {t : State} (h : Inside below callers s)
    (ht : after p limit n (.next s) = .next t)
    (hactive : ∀ k ≤ n, ∀ u, after p limit k (.next s) = .next u →
      callers.length < u.frames.length)
    (hfrugal : ∀ k < n, ∀ u, after p limit k (.next s) = .next u → Frugal p u) :
    Inside below callers t := by
  induction n generalizing s with
  | zero =>
      cases ht
      exact h
  | succ n ih =>
      rw [after_succ_next] at ht
      cases hs : step p limit s with
      | done v output =>
          rw [hs, after_done] at ht
          cases ht
      | failed f output =>
          rw [hs, after_failed] at ht
          cases ht
      | next s' =>
          have hshift : ∀ k, after p limit (k + 1) (.next s) = after p limit k (.next s') :=
            fun k => by rw [after_succ_next, hs]
          rw [hs] at ht
          obtain hinside | hreturned := inside_step h (hfrugal 0 (Nat.zero_lt_succ n) s rfl) hs
          · refine ih hinside ht (fun k hk u hu => ?_) (fun k hk u hu => ?_)
            · exact hactive (k + 1) (Nat.succ_le_succ hk) u ((hshift k).trans hu)
            · exact hfrugal (k + 1) (Nat.succ_lt_succ hk) u ((hshift k).trans hu)
          · have hdeep := hactive 1 (Nat.succ_le_succ (Nat.zero_le n)) s' (hshift 0)
            rw [hreturned.frames] at hdeep
            exact absurd hdeep (Nat.lt_irrefl _)

/-- A step that enters a call takes its arguments from the operands, and the rest of them are the
operands below the call. -/
theorem inside_enter {s₁ : State} (hcall : step p limit s = .next s₁)
    (hdeeper : s₁.frames.length = s.frames.length + 1) :
    s.frames.length = s₁.frames.tail.length ∧ Inside s₁.stack.toList s₁.frames.tail s₁ ∧
      ∃ args, s.stack.toList = s₁.stack.toList ++ args := by
  obtain ⟨stack, frames, output⟩ := s
  cases frames with
  | nil => cases hcall
  | cons frame rest =>
      obtain ⟨-, heffect⟩ := step_effect hcall
      cases heffect with
      | stay frame' pushed hframes _ _ =>
          rw [hframes] at hdeeper
          exact absurd hdeeper (by simp)
      | leave result _ hframes _ _ =>
          rw [hframes] at hdeeper
          simp only [List.length_cons] at hdeeper
          omega
      | enter callee frame' hframes _ hcallee hstack =>
          refine ⟨?_, ⟨?_, List.prefix_rfl⟩, stack.toList.drop (stack.size - frame.demand p), ?_⟩
          · rw [hframes]
            rfl
          · rw [hframes]
            refine .callee callee ?_
            rw [hcallee, hstack, List.length_take, Array.length_toList]
            omega
          · rw [hstack, List.take_append_drop]

/-- While a call and the calls that it makes demand no more than the operands above the bases of
their frames, the operands of the caller stay as they were before the arguments. When the call
returns then, they are on the stack again with the returned value if there is one. An instruction
that demands more than the whole stack raises the underflow. -/
theorem isolated_of_frugal {s₁ t : State} {n : Nat} (hcall : step p limit s = .next s₁)
    (hdeeper : s₁.frames.length = s.frames.length + 1)
    (ht : after p limit n (.next s₁) = .next t)
    (hactive : ∀ k ≤ n, ∀ u, after p limit k (.next s₁) = .next u →
      s.frames.length < u.frames.length)
    (hfrugal : ∀ k < n, ∀ u, after p limit k (.next s₁) = .next u → Frugal p u) :
    (∃ args, s.stack.toList = s₁.stack.toList ++ args) ∧ s₁.stack.toList <+: t.stack.toList ∧
      (∀ frame ∈ t.frames.head?, t.stack.size < frame.demand p →
        step p limit t = .failed (.defective .underflow) t.output) ∧
      (Frugal p t → ∀ t', step p limit t = .next t' → t'.frames.length ≤ s.frames.length →
        t'.frames = s₁.frames.tail ∧
          t'.stack.toList = s₁.stack.toList ++ (t.returned? p).toList) := by
  obtain ⟨hlength, hinside, hargs⟩ := inside_enter hcall hdeeper
  rw [hlength] at hactive ⊢
  have hnow := inside_after hinside ht hactive hfrugal
  refine ⟨hargs, hnow.operands, fun frame => step_underflow, fun hlast t' ht' hback => ?_⟩
  obtain hstill | hreturned := inside_step hnow hlast ht'
  · have hdeep := hstill.frames.length_lt
    omega
  · exact ⟨hreturned.frames, hreturned.operands⟩

end

/-- `Main` pushes 7 and 8 and calls the other method, which pops an operand that is not its own. -/
def reachingDown : Module :=
  ⟨"M", #[⟨"C", #[
    ⟨"Main", true, false, [], [], .int, 0, #[.int 7, .int 8],
      #[.const 0, .const 1, .call 0 1, .ret]⟩,
    ⟨"Take", true, false, [], [], .void, 0, #[], #[.pop, .retVoid]⟩]⟩]⟩

/-- A method can take the operands of its caller: it is entered over two operands, leaves one of
them without a fault, and the caller goes on with what is left. -/
theorem reachingDown_not_isolated :
    ∃ p, Program.ofModule reachingDown = .ok p ∧ ∃ s s' t callee main,
      after p 2 3 (start p 2 ⟨0, 0⟩ []) = .next s ∧ s.frames = [callee, main] ∧
        callee.base = 2 ∧ s.stack = #[.int 7, .int 8] ∧
      after p 2 4 (start p 2 ⟨0, 0⟩ []) = .next s' ∧ s'.stack = #[.int 7] ∧
      after p 2 5 (start p 2 ⟨0, 0⟩ []) = .next t ∧ t.frames.length = 1 ∧ t.stack = #[.int 7] ∧
      invoke p 2 6 ⟨0, 0⟩ [] = some ⟨.ok (.int 7), ""⟩ := by
  have hp := Program.ofModule_eq_ok (m := reachingDown) rfl
  exact ⟨_, hp, _, _, _, _, _, rfl, rfl, rfl, rfl, rfl, rfl, rfl, rfl, rfl, rfl⟩

/-- `Main` calls a method that pops what it has pushed. -/
def staysAbove : Module :=
  ⟨"M", #[⟨"C", #[
    ⟨"Main", true, false, [], [], .int, 0, #[.int 7], #[.const 0, .call 0 1, .pop, .ret]⟩,
    ⟨"Give", true, false, [], [], .int, 0, #[.int 8], #[.const 0, .ret]⟩]⟩]⟩

theorem isolated_staysAbove :
    ∃ p, Program.ofModule staysAbove = .ok p ∧ ∃ s s₁ t t',
      after p 2 1 (start p 2 ⟨0, 0⟩ []) = .next s ∧ step p 2 s = .next s₁ ∧
      after p 2 1 (.next s₁) = .next t ∧ step p 2 t = .next t' ∧
      s₁.stack.toList <+: t.stack.toList ∧ t.returned? p = some (.int 8) ∧
      t'.stack.toList = s₁.stack.toList ++ (t.returned? p).toList := by
  have hp := Program.ofModule_eq_ok (m := staysAbove) rfl
  refine ⟨_, hp, _, _, _, _, rfl, rfl, rfl, rfl, ?_⟩
  have hcall : Machine.step ⟨staysAbove, rfl⟩ 2 ⟨#[.int 7], [⟨⟨0, 0⟩, 1, #[], 0, 1⟩], ""⟩ =
      .next ⟨#[.int 7], [⟨⟨0, 1⟩, 0, #[], 1, 2⟩, ⟨⟨0, 0⟩, 2, #[], 0, 1⟩], ""⟩ := rfl
  obtain ⟨-, hoperands, -, hreturn⟩ := isolated_of_frugal hcall (n := 1) rfl rfl
    (fun k hk u hu => by
      obtain rfl | rfl := Nat.le_one_iff_eq_zero_or_eq_one.1 hk
      all_goals
        cases hu
        decide)
    (fun k hk u hu frame hframe => by
      obtain rfl := Nat.lt_one_iff.1 hk
      cases hu
      cases hframe
      decide)
  have hlast : Frugal ⟨staysAbove, rfl⟩ ⟨#[.int 7, .int 8],
      [⟨⟨0, 1⟩, 1, #[], 1, 2⟩, ⟨⟨0, 0⟩, 2, #[], 0, 1⟩], ""⟩ := by
    intro frame hframe
    cases hframe
    decide
  exact ⟨hoperands, rfl, (hreturn hlast _ rfl (by decide)).2⟩

end Scriptlet.Machine
