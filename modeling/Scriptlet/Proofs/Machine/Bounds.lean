import Scriptlet.Proofs.Machine.Loading
import Scriptlet.Proofs.Machine.Locality
import Scriptlet.Proofs.Machine.Trace

namespace Scriptlet.Machine

/-!
# Bounds of runs

A run of a checked program stays within it, whatever its code does with the operand stack. Each
frame is at a place of an existing method and has the slots of that method, and no more frames are
active than the limit allows.
-/

open Code (Instr Method Module Handle Literal)

/-- A frame that is at a place of an existing method and has the slots of that method. -/
def Frame.Fits (p : Program) (frame : Frame) : Prop :=
  ∃ m, p.method? frame.handle = some m ∧ frame.locals.size = m.locals.toNat ∧
    frame.position ≤ m.code.size

theorem Frame.Fits.of_method {p : Program} {frame : Frame} (h : frame.Fits p) {m : Method}
    (hm : p.method? frame.handle = some m) :
    frame.locals.size = m.locals.toNat ∧ frame.position ≤ m.code.size := by
  obtain ⟨m', hm', hfit⟩ := h
  rw [hm] at hm'
  cases hm'
  exact hfit

/-- The invariant of the frames of a run. -/
structure Within (p : Program) (limit : Nat) (frames : List Frame) : Prop where
  active : frames ≠ []
  counted : Counted frames
  bounded : frames.length ≤ limit
  fit : ∀ frame ∈ frames, frame.Fits p

/-- What a step must lead to: frames within the program, or an end that is no dangling reference. -/
def Step.Within (p : Program) (limit : Nat) : Step → Prop
  | .next s => Machine.Within p limit s.frames
  | .done _ _ => True
  | .failed f _ => f.isDangling = false

section

variable {p : Program} {limit : Nat}

theorem Within.rest {frame next : Frame} {rest : List Frame}
    (h : Within p limit (frame :: next :: rest)) : Within p limit (next :: rest) where
  active := List.cons_ne_nil _ _
  counted := h.counted.2
  bounded := Nat.le_of_succ_le h.bounded
  fit f hf := h.fit f (List.mem_cons_of_mem frame hf)

/-- The innermost frame may change as long as it fits and keeps its count. -/
theorem Within.replace {frame frame' : Frame} {rest : List Frame}
    (h : Within p limit (frame :: rest)) (hd : frame'.depth = frame.depth)
    (hfit : frame'.Fits p) : Within p limit (frame' :: rest) where
  active := List.cons_ne_nil _ _
  counted := ⟨hd.trans h.counted.1, h.counted.2⟩
  bounded := h.bounded
  fit f hf := by
    rcases List.mem_cons.1 hf with rfl | hf
    · exact hfit
    · exact h.fit f (List.mem_cons_of_mem frame hf)

theorem size_slots (args : List Value) (count : Nat) : (slots args count).size = count := by
  simp only [slots, List.size_toArray, List.length_append, List.length_take, List.length_replicate]
  omega

theorem Frame.size_assign (f : Frame) (slot : Nat) (v : Value) :
    (f.assign slot v).locals.size = f.locals.size := by
  simp [Frame.assign]

theorem within_push {frames : List Frame} (h : Within p limit frames) {r : Except Fault Value}
    (hr : Local r) (stack : Array Value) (output : String) :
    (push stack frames output r).Within p limit := by
  cases r with
  | ok v => exact h
  | error f => exact hr f rfl

theorem within_withTop {k : Value → Array Value → Step}
    (hk : ∀ v stack, (k v stack).Within p limit) (stack : Array Value) (output : String) :
    (withTop stack output k).Within p limit :=
  withTop_of hk rfl stack

theorem within_withCondition {k : Bool → Array Value → Step}
    (hk : ∀ b stack, (k b stack).Within p limit) (stack : Array Value) (output : String) :
    (withCondition stack output k).Within p limit :=
  withCondition_of hk rfl (fun _ => rfl) stack

theorem within_withOperands {n : Nat} {k : List Value → Array Value → Step}
    (hk : ∀ args stack, (k args stack).Within p limit) (stack : Array Value) (output : String) :
    (withOperands n stack output k).Within p limit :=
  withOperands_of hk rfl stack

theorem within_leave {frame : Frame} {rest : List Frame} (h : Within p limit (frame :: rest))
    (stack : Array Value) (output : String) (result : Option Value) :
    (leave frame rest stack output result).Within p limit := by
  cases rest with
  | nil => trivial
  | cons next rest => cases result <;> exact h.rest

/-- Entering an existing method adds a frame, unless the limit is reached. -/
theorem within_enter {h : Handle} {m : Method} (hm : p.method? h = some m) {frames : List Frame}
    (hcount : Counted frames) (hfit : ∀ frame ∈ frames, frame.Fits p) (args : List Value)
    (stack : Array Value) (output : String) :
    (enter p limit h args stack frames output).Within p limit := by
  unfold enter
  by_cases hl : limit ≤ depth frames
  · rw [if_pos hl]
    rfl
  · rw [if_neg hl, hm]
    have hdepth := hcount.depth_eq
    refine ⟨List.cons_ne_nil _ _, ⟨by simp [hdepth], hcount⟩, ?_, ?_⟩
    · simp only [List.length_cons]
      omega
    · intro frame hframe
      rcases List.mem_cons.1 hframe with rfl | hframe
      · exact ⟨m, hm, size_slots _ _, Nat.zero_le _⟩
      · exact hfit frame hframe

/-- An instruction of a program keeps its run within the program. -/
theorem within_execute {m : Method} {frame : Frame} {rest : List Frame}
    (h : Within p limit (frame :: rest)) (hm : p.method? frame.handle = some m) {i : Instr}
    (hi : inRange p.module m i = true) (stack : Array Value) (output : String) :
    (execute p limit m i stack frame rest output).Within p limit := by
  obtain ⟨hsize, hpos⟩ := (h.fit frame (List.mem_cons_self ..)).of_method hm
  have hjump : ∀ n, n ≤ m.code.size → Within p limit ({ frame with position := n } :: rest) :=
    fun n hn => h.replace rfl ⟨m, hm, hsize, hn⟩
  cases i with
  | const n =>
      have hn : n.toNat < m.literals.size := by simpa [inRange] using hi
      simp only [execute, Array.getElem?_eq_getElem hn]
      exact h
  | load n =>
      have hn : n.toNat < frame.locals.size := by
        rw [hsize]
        simpa [inRange, UInt16.lt_iff_toNat_lt] using hi
      simp only [execute, Array.getElem?_eq_getElem hn]
      exact h
  | store n =>
      have hn : n.toNat < frame.locals.size := by
        rw [hsize]
        simpa [inRange, UInt16.lt_iff_toNat_lt] using hi
      simp only [execute]
      refine within_withTop (fun v stack => ?_) stack output
      rw [if_pos hn]
      refine h.replace rfl ⟨m, hm, ?_, hpos⟩
      rw [Frame.size_assign, hsize]
  | pop =>
      simp only [execute]
      refine within_withTop (fun _ _ => ?_) stack output
      exact h
  | dup =>
      simp only [execute]
      refine within_withTop (fun _ _ => ?_) stack output
      exact h
  | nop => exact h
  | binary op =>
      simp only [execute]
      refine within_withTop (fun _ stack => ?_) stack output
      refine within_withTop (fun _ stack => ?_) stack output
      exact within_push h (local_binary _ _ _) stack output
  | unary op =>
      simp only [execute]
      refine within_withTop (fun _ stack => ?_) stack output
      exact within_push h (local_unary _ _) stack output
  | concat =>
      simp only [execute]
      refine within_withTop (fun _ stack => ?_) stack output
      refine within_withTop (fun _ _ => ?_) stack output
      exact h
  | convert t =>
      simp only [execute]
      refine within_withTop (fun _ stack => ?_) stack output
      exact within_push h (local_cast _ _) stack output
  | unbox t =>
      simp only [execute]
      refine within_withTop (fun _ stack => ?_) stack output
      exact within_push h (local_unbox _ _) stack output
  | jump n => exact hjump _ (by simpa [inRange] using hi)
  | jumpIfFalse n =>
      simp only [execute]
      refine within_withCondition (fun b stack => ?_) stack output
      cases b
      · exact hjump _ (by simpa [inRange] using hi)
      · exact h
  | jumpIfTrue n =>
      simp only [execute]
      refine within_withCondition (fun b stack => ?_) stack output
      cases b
      · exact h
      · exact hjump _ (by simpa [inRange] using hi)
  | call c k =>
      obtain ⟨callee, hcallee⟩ : ∃ callee, p.method? ⟨c, k⟩ = some callee :=
        Option.isSome_iff_exists.1 hi
      simp only [execute, hcallee]
      refine within_withOperands (fun args stack => ?_) stack output
      exact within_enter hcallee h.counted h.fit args stack output
  | routine r =>
      simp only [execute]
      refine within_withOperands (fun args stack => ?_) stack output
      have hr := local_call r args
      split
      · exact h
      · exact h
      · next f hf => exact hr f hf
  | ret =>
      simp only [execute]
      exact within_withTop (fun v stack => within_leave h stack output (some v)) stack output
  | retVoid => exact within_leave h stack output none
  | throw =>
      simp only [execute]
      refine within_withTop (fun v _ => ?_) stack output
      cases v <;> rfl

/-- A step of a run that is within its program. -/
theorem within_step {s : State} (h : Within p limit s.frames) :
    (step p limit s).Within p limit := by
  obtain ⟨stack, frames, output⟩ := s
  cases frames with
  | nil => exact absurd rfl h.active
  | cons frame rest =>
      obtain ⟨m, hm, hsize, hpos⟩ := h.fit frame (List.mem_cons_self ..)
      simp only [step, hm]
      cases hi : m.code[frame.position]? with
      | none => exact within_leave h stack output none
      | some i =>
          have hlt : frame.position < m.code.size := (Array.getElem?_eq_some_iff.1 hi).1
          have hnext : Within p limit ({ frame with position := frame.position + 1 } :: rest) :=
            h.replace rfl ⟨m, hm, hsize, hlt⟩
          exact within_execute hnext hm (Program.inRange_method hm hi) stack output

theorem within_after {x : Step} (h : x.Within p limit) (n : Nat) :
    (after p limit n x).Within p limit := by
  induction n generalizing x with
  | zero => simpa using h
  | succ n ih =>
      cases x with
      | next s => exact ih (within_step h)
      | done v output => simpa using h
      | failed f output => simpa using h

theorem within_start {h : Handle} {m : Method} (hm : p.method? h = some m) {args : List Value}
    (hargs : args.length = m.params.length) : (start p limit h args).Within p limit := by
  simp only [start, hm, if_pos hargs]
  have hcounted : Counted [] := trivial
  exact within_enter hm hcounted (by simp) args #[] ""

end

/-- A run of a loaded module never leaves it, whatever the code of the module does: in every state
that it reaches there is an active frame, no more frames than the limit, and each frame is at a
place of a method of the module with just the slots of that method; and no fault is a reference to
a literal, a slot, a method or a frame that does not exist. -/
theorem run_stays_within {m : Module} {p : Program} (hp : Program.ofModule m = .ok p) {h : Handle}
    {f : Method} (hf : m.method? h = some f) {args : List Value}
    (hargs : args.length = f.params.length) (limit n : Nat) :
    (∀ s, after p limit n (start p limit h args) = .next s →
      s.frames ≠ [] ∧ s.frames.length ≤ limit ∧
        ∀ frame ∈ s.frames, ∃ g, m.method? frame.handle = some g ∧
          frame.locals.size = g.locals.toNat ∧ frame.position ≤ g.code.size) ∧
      ∀ o, invoke p limit n h args = some o →
        ∀ d ∈ [Defect.literalOutOfRange, .slotOutOfRange, .outsideModule, .noFrame],
          o.result ≠ .error (.defective d) := by
  have hm : p.method? h = some f := by
    rw [Program.method?, Program.module_of_ofModule hp]
    exact hf
  have hwithin : (after p limit n (start p limit h args)).Within p limit :=
    within_after (within_start hm hargs) n
  constructor
  · intro s hs
    rw [hs] at hwithin
    refine ⟨hwithin.active, hwithin.bounded, fun frame hframe => ?_⟩
    have hfit := hwithin.fit frame hframe
    rwa [Frame.Fits, Program.method?, Program.module_of_ofModule hp] at hfit
  · intro o ho d hd hres
    rw [invoke, runFrom_eq_outcome?] at ho
    cases hx : after p limit n (start p limit h args) with
    | next s => simp [hx, Step.outcome?] at ho
    | done v output =>
        rw [hx] at ho
        cases ho
        cases hres
    | failed g output =>
        rw [hx] at ho hwithin
        cases ho
        cases hres
        have hdangling : d.isDangling = false := hwithin
        simp only [List.mem_cons, List.not_mem_nil, or_false] at hd
        rcases hd with rfl | rfl | rfl | rfl <;> cases hdangling

/-- A method that calls itself, pops what it never pushed, and jumps to its end. -/
def descent : Module :=
  ⟨"M", #[⟨"C", #[⟨"Descend", true, true, [.bool], ["b"], .int, 2, #[.bool true],
    #[.load 0, .jumpIfFalse 5, .const 0, .call 0 0, .pop]⟩]⟩]⟩

theorem run_stays_within_descent :
    ∃ p, Program.ofModule descent = .ok p ∧ ∀ n s,
      after p 3 n (start p 3 ⟨0, 0⟩ [.bool true]) = .next s →
        s.frames ≠ [] ∧ s.frames.length ≤ 3 ∧
          ∀ frame ∈ s.frames, ∃ g, descent.method? frame.handle = some g ∧
            frame.locals.size = g.locals.toNat ∧ frame.position ≤ g.code.size := by
  have hp := Program.ofModule_eq_ok (m := descent) rfl
  exact ⟨_, hp, fun n => (run_stays_within hp (h := ⟨0, 0⟩) rfl rfl 3 n).1⟩

end Scriptlet.Machine
