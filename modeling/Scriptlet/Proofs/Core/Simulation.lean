import Scriptlet.Proofs.Core.Layout
import Scriptlet.Proofs.Machine.Loading
import Scriptlet.Proofs.Machine.Simulation

namespace Scriptlet.Core

/-!
# The machine runs core programs

Where the code of a program is laid out, a run of the machine follows the evaluation of the program.
The slots of the frame are those of the store, and values go to the operand stack.
-/

open Code (Instr Literal Handle)
open Machine (Program Frame State Step Fault ConformAll Follows Lasts after enter leave step execute)

/-- The stack behind an expression. Only calls without a result have the void value, which is not
pushed. -/
def pushed (stack : Array Value) : Value → Array Value
  | .void => stack
  | v => stack.push v

theorem pushed_of_ne {v : Value} (hv : v ≠ .void) (stack : Array Value) :
    pushed stack v = stack.push v := by
  cases v <;> first | rfl | exact absurd rfl hv

/-- Where a run is when a call has ended. -/
def returned (stack : Array Value) (frames : List Frame) (v : Value) (output : String) : Step :=
  match frames with
  | [] => .done v output
  | _ => .next ⟨pushed stack v, frames, output⟩

/-- What does not change while a method is active. -/
structure Activation where
  handle : Handle
  method : Code.Method
  base : Nat
  depth : Nat
  rest : List Frame

namespace Activation

variable (a : Activation)

def frame (position : Nat) (s : Store) : Frame :=
  ⟨a.handle, position, Array.ofFn fun i : Fin a.method.locals.toNat => s.slots (.ofNat i),
    a.base, a.depth⟩

/-- The state of the machine at a place of the method, with a stack of operands. -/
def state (position : Nat) (stack : Array Value) (s : Store) : State :=
  ⟨stack, a.frame position s :: a.rest, s.output⟩

theorem locals_frame (position : Nat) (s : Store) {slot : UInt16} (h : slot < a.method.locals) :
    (a.frame position s).locals[slot.toNat]? = some (s.slots slot) := by
  have hlt : slot.toNat < a.method.locals.toNat := h
  simp [frame, hlt]

theorem assign_frame (position : Nat) (s : Store) (slot : UInt16) (v : Value) :
    (a.frame position s).assign slot.toNat v = a.frame position (s.assign slot v) := by
  simp only [Frame.assign, frame, Frame.mk.injEq, true_and, and_true]
  refine Array.ext_getElem? fun i => ?_
  rw [Array.getElem?_setIfInBounds]
  by_cases hi : i < a.method.locals.toNat
  · have hsmall : i < 65536 := Nat.lt_trans hi a.method.locals.toNat_lt
    have hiff : (UInt16.ofNat i = slot) ↔ slot.toNat = i := by
      rw [← UInt16.toNat_inj, UInt16.toNat_ofNat_of_lt' hsmall, eq_comm]
    by_cases hslot : slot.toNat = i
    · simp [hi, hslot, hiff]
    · simp [hi, hslot, hiff]
  · simp only [Array.size_ofFn, Array.getElem?_ofFn, hi, dif_neg, not_false_eq_true]
    split
    · rw [if_neg (by omega)]
    · rfl

end Activation

section

variable {p : Program} {limit : Nat} {a : Activation} {position : Nat} {stack : Array Value}
  {s : Store}

/-- A step at a place of the method executes the instruction there. -/
theorem step_state (hm : p.method? a.handle = some a.method) {i : Instr}
    (hi : a.method.code[position]? = some i) :
    step p limit (a.state position stack s) =
      execute p limit a.method i stack (a.frame (position + 1) s) a.rest s.output := by
  simp only [step, Activation.state, Activation.frame, hm, hi]

/-- The slots of an instruction are those of the method. -/
theorem slot_lt (hm : p.method? a.handle = some a.method) {slot : UInt16}
    (hi : a.method.code[position]? = some (.load slot) ∨
      a.method.code[position]? = some (.store slot)) : slot < a.method.locals := by
  rcases hi with hi | hi
  · simpa [Machine.inRange] using Program.inRange_method hm hi
  · simpa [Machine.inRange] using Program.inRange_method hm hi

theorem step_const (hm : p.method? a.handle = some a.method) {n : UInt32} {l : Literal}
    (hi : a.method.code[position]? = some (.const n))
    (hl : a.method.literals[n.toNat]? = some l) :
    step p limit (a.state position stack s) =
      .next (a.state (position + 1) (stack.push l.toValue) s) := by
  rw [step_state hm hi]
  simp only [execute, hl]
  rfl

theorem step_load (hm : p.method? a.handle = some a.method) {slot : UInt16}
    (hi : a.method.code[position]? = some (.load slot)) :
    step p limit (a.state position stack s) =
      .next (a.state (position + 1) (stack.push (s.slots slot)) s) := by
  rw [step_state hm hi]
  simp only [execute, a.locals_frame _ s (slot_lt hm (.inl hi))]
  rfl

theorem step_store (hm : p.method? a.handle = some a.method) {slot : UInt16}
    (hi : a.method.code[position]? = some (.store slot)) (v : Value) :
    step p limit (a.state position (stack.push v) s) =
      .next (a.state (position + 1) stack (s.assign slot v)) := by
  have hslot : slot.toNat < a.method.locals.toNat := slot_lt hm (.inr hi)
  have hlt : slot.toNat < (a.frame (position + 1) s).locals.size := by
    simpa [Activation.frame] using hslot
  rw [step_state hm hi]
  simp only [execute, Machine.withTop, Array.back?_push, Array.pop_push, if_pos hlt,
    a.assign_frame]
  rfl

theorem step_pop (hm : p.method? a.handle = some a.method)
    (hi : a.method.code[position]? = some .pop) (v : Value) :
    step p limit (a.state position (stack.push v) s) = .next (a.state (position + 1) stack s) := by
  rw [step_state hm hi]
  simp only [execute, Machine.withTop, Array.back?_push, Array.pop_push]
  rfl

theorem step_dup (hm : p.method? a.handle = some a.method)
    (hi : a.method.code[position]? = some .dup) (v : Value) :
    step p limit (a.state position (stack.push v) s) =
      .next (a.state (position + 1) ((stack.push v).push v) s) := by
  rw [step_state hm hi]
  simp only [execute, Machine.withTop, Array.back?_push, Array.pop_push]
  rfl

theorem step_nop (hm : p.method? a.handle = some a.method)
    (hi : a.method.code[position]? = some .nop) :
    step p limit (a.state position stack s) = .next (a.state (position + 1) stack s) := by
  rw [step_state hm hi]
  rfl

theorem step_jump (hm : p.method? a.handle = some a.method) {target : UInt32}
    (hi : a.method.code[position]? = some (.jump target)) :
    step p limit (a.state position stack s) = .next (a.state target.toNat stack s) := by
  rw [step_state hm hi]
  rfl

theorem step_jumpIfFalse (hm : p.method? a.handle = some a.method) {target : UInt32}
    (hi : a.method.code[position]? = some (.jumpIfFalse target)) (b : Bool) :
    step p limit (a.state position (stack.push (.bool b)) s) =
      .next (a.state (if b then position + 1 else target.toNat) stack s) := by
  rw [step_state hm hi]
  simp only [execute, Machine.withCondition, Machine.withTop, Array.back?_push, Array.pop_push]
  cases b <;> rfl

theorem step_jumpIfTrue (hm : p.method? a.handle = some a.method) {target : UInt32}
    (hi : a.method.code[position]? = some (.jumpIfTrue target)) (b : Bool) :
    step p limit (a.state position (stack.push (.bool b)) s) =
      .next (a.state (if b then target.toNat else position + 1) stack s) := by
  rw [step_state hm hi]
  simp only [execute, Machine.withCondition, Machine.withTop, Array.back?_push, Array.pop_push]
  cases b <;> rfl

/-- The result of an operation on the stack. -/
def outcome (a : Activation) (position : Nat) (stack : Array Value) (s : Store) :
    Except Fault Value → Step
  | .ok v => .next (a.state position (stack.push v) s)
  | .error f => .failed f s.output

theorem step_unary (hm : p.method? a.handle = some a.method) {op : UnaryOp}
    (hi : a.method.code[position]? = some (.unary op)) (v : Value) :
    step p limit (a.state position (stack.push v) s) =
      outcome a (position + 1) stack s (Machine.unary op v) := by
  rw [step_state hm hi]
  simp only [execute, Machine.withTop, Array.back?_push, Array.pop_push]
  cases Machine.unary op v <;> rfl

theorem step_combine (hm : p.method? a.handle = some a.method) {c : Combiner}
    (hi : a.method.code[position]? = some c.instr) (v w : Value) :
    step p limit (a.state position ((stack.push v).push w) s) =
      outcome a (position + 1) stack s (c.apply v w) := by
  rw [step_state hm hi]
  cases c with
  | concat =>
      simp only [Combiner.instr, execute, Machine.withTop, Array.back?_push, Array.pop_push]
      rfl
  | operator op =>
      simp only [Combiner.instr, execute, Machine.withTop, Array.back?_push, Array.pop_push,
        Combiner.apply]
      cases Machine.binary op v w <;> rfl

/-- A conversion that is written out. -/
theorem step_convert (hm : p.method? a.handle = some a.method) {c : Conversion} {t : DataType}
    (hi : a.method.code[position]? = some (c.instr t)) (v : Value) :
    step p limit (a.state position (stack.push v) s) =
      outcome a (position + 1) stack s (c.apply t v) := by
  cases c with
  | identity | reference => exact step_nop hm hi
  | numeric =>
      rw [step_state hm hi]
      simp only [Conversion.instr, execute, Machine.withTop, Array.back?_push, Array.pop_push,
        Conversion.apply]
      cases Machine.cast v t <;> rfl
  | unbox =>
      rw [step_state hm hi]
      simp only [Conversion.instr, execute, Machine.withTop, Array.back?_push, Array.pop_push,
        Conversion.apply]
      cases Machine.unbox v t <;> rfl

variable {n : Nat}

/-- A run at the end of an expression. -/
abbrev behind (a : Activation) (position : Nat) (stack : Array Value) (v : Value) (s : Store) :
    Step :=
  .next (a.state position (pushed stack v) s)

theorem follows_outcome {x : State} {r : Except Fault Value}
    (hstep : step p limit x = outcome a position stack s r) (hr : ∀ v, r = .ok v → v ≠ .void) :
    Follows p limit n (.next x) Store.output (behind a position stack) (Eval.ofExcept r s) := by
  cases r with
  | ok v =>
      refine .step hstep (.here ?_)
      rw [behind, pushed_of_ne (hr v rfl)]
      rfl
  | error f => exact .step hstep (.failed rfl)

/-- Only the identity converts to or from the void type. -/
theorem void_of_leads {c : Conversion} {t : StaticType} {u : DataType} (hc : c.Leads t u)
    (h : t = .of .void ∨ u = .void) : t = .of .void ∧ u = .void ∧ c = .identity := by
  cases hc with
  | identity => simpa using h
  | null hu =>
      rcases h with h | rfl
      · cases h
      · cases hu
  | widen hs hw hu =>
      rcases h with h | rfl
      · exact absurd (StaticType.of.inj h) hs
      · rename_i s
        cases s <;> simp [DataType.widensTo] at hw hs
  | numeric hs hu =>
      rcases h with h | rfl
      · obtain rfl := StaticType.of.inj h
        cases hs
      · cases hu
  | unbox hu =>
      rcases h with h | rfl
      · cases h
      · exact absurd rfl hu

/-- A conversion with a place of its own. -/
theorem follows_settle (hm : p.method? a.handle = some a.method) {c : Conversion} {t : StaticType}
    {u : DataType} (hc : c.Leads t u) (hi : a.method.code[position]? = some (c.instr u))
    {v : Value} (hv : v.ConformsTo t) :
    Follows p limit n (behind a position stack v s) Store.output (behind a (position + 1) stack)
      (Eval.ofExcept (c.apply u v) s) := by
  by_cases hvoid : t = .of .void
  · obtain ⟨rfl, rfl, rfl⟩ := void_of_leads hc (.inl hvoid)
    obtain rfl : v = .void := hv
    exact .step (step_nop hm hi) (.here rfl)
  · rw [behind, pushed_of_ne (hv.ne_void hvoid)]
    refine follows_outcome (step_convert hm hi v) fun w hw => ?_
    have hsafe := Machine.safe_apply_conversion hc hv
    rw [hw] at hsafe
    exact hsafe.ne_void fun hu => hvoid (void_of_leads hc (.inr hu)).1

/-- A conversion that is left out if it does nothing. -/
theorem follows_convert (hm : p.method? a.handle = some a.method) {c : Conversion} {t : StaticType}
    {u : DataType} (hc : c.Leads t u) {stop : Nat}
    (hi : Needed a.method.code position (c.instr u) stop) {v : Value} (hv : v.ConformsTo t) :
    Follows p limit n (behind a position stack v s) Store.output (behind a stop stack)
      (Eval.ofExcept (c.apply u v) s) := by
  by_cases hnop : c.instr u = .nop
  · rw [hnop, needed_nop] at hi
    subst hi
    cases c with
    | identity | reference => exact .here rfl
    | numeric | unbox => cases hnop
  · rw [needed_iff hnop] at hi
    obtain ⟨hi, rfl⟩ := hi
    exact follows_settle hm hc hi hv

/-- Calls of methods from a depth on are followed; a call takes a step of its own. -/
def CallsFollow (p : Program) (limit n depth : Nat) (sigs : Interface) (calls : Calls) : Prop :=
  ∀ h m args stack frames output, sigs h = some m → ConformAll args m.params →
    Machine.depth frames = depth →
    Follows p limit (n - 1) (enter p limit h args stack frames output) id
      (fun v output => returned stack frames v output) (calls h args output)

/-- What a run of an active method relies on. -/
structure Setting (p : Program) (limit n : Nat) (sigs : Interface) (calls : Calls)
    (a : Activation) : Prop where
  method : p.method? a.handle = some a.method
  callees : ∀ h m, sigs h = some m → ∃ f, p.method? h = some f ∧ f.params.length = m.params.length
  sound : CallsSound sigs calls
  follows : CallsFollow p limit n a.depth sigs calls

theorem withOperands_append {vs : List Value} {count : Nat} (hcount : count = vs.length)
    (output : String) (k : List Value → Array Value → Step) :
    Machine.withOperands count (stack ++ vs.toArray) output k = k vs stack := by
  subst hcount
  have hsize : (stack ++ vs.toArray).size - vs.length = stack.size := by simp
  unfold Machine.withOperands
  rw [if_pos (by simp), hsize]
  congr 1
  · simp
  · simp

variable {sigs : Interface} {calls : Calls} {vars : List Local}

theorem toValue_ne_void (l : Literal) : l.toValue ≠ .void := by
  cases l <;> exact Value.noConfusion

theorem follows_load (hset : Setting p limit n sigs calls a) {l : Local} (hl : l.type ≠ .void)
    (hv : (s.slots l.slot).Conforms l.type)
    (hi : a.method.code[position]? = some (.load l.slot)) :
    Follows p limit n (.next (a.state position stack s)) Store.output (behind a (position + 1) stack)
      (Eval.gets (·.slots l.slot) s) := by
  refine .step (step_load hset.method hi) (.here ?_)
  rw [behind, pushed_of_ne (hv.ne_void hl)]

/-- Calling a method with arguments on the stack. -/
theorem follows_call (hset : Setting p limit n sigs calls a) {h : Handle} {m : MethodSignature}
    (hm : sigs h = some m) {vs : List Value} (hvs : ConformAll vs m.params)
    (hi : a.method.code[position]? = some (.call h.cls h.method)) :
    Follows p limit n (.next (a.state position (stack ++ vs.toArray) s)) Store.output
      (behind a (position + 1) stack) (printing (calls h vs) s) := by
  obtain ⟨f, hf, hparams⟩ := hset.callees h m hm
  have hstep : step p limit (a.state position (stack ++ vs.toArray) s) =
      enter p limit h vs stack (a.frame (position + 1) s :: a.rest) s.output := by
    rw [step_state hset.method hi]
    simp only [execute]
    rw [show (⟨h.cls, h.method⟩ : Handle) = h from rfl, hf]
    exact withOperands_append (hparams.trans hvs.length_eq.symm) _ _
  have hfollow := hset.follows h m vs stack (a.frame (position + 1) s :: a.rest) s.output hm hvs rfl
  rw [printing, Eval.onPart_apply]
  refine .pred ?_
  rw [hstep]
  rcases hr : calls h vs s.output with _ | ⟨f | v, output⟩
  all_goals
    rw [hr] at hfollow
    exact hfollow

theorem follows_routine (hset : Setting p limit n sigs calls a) {r : Code.Routine}
    {params : List DataType} {t : DataType} (hr : r.Takes params t) {vs : List Value}
    (hvs : ConformAll vs params) (hi : a.method.code[position]? = some (.routine r)) :
    Follows p limit n (.next (a.state position (stack ++ vs.toArray) s)) Store.output
      (behind a (position + 1) stack) (printing (perform r vs) s) := by
  have hstep : step p limit (a.state position (stack ++ vs.toArray) s) =
      execute p limit a.method (.routine r) (stack ++ vs.toArray) (a.frame (position + 1) s) a.rest
        s.output := step_state hset.method hi
  simp only [execute] at hstep
  rw [withOperands_append (hr.arity_eq.trans hvs.length_eq.symm)] at hstep
  have hsafe := Machine.safe_call hr hvs
  rw [printing, Eval.onPart_apply]
  unfold perform
  rcases hcall : Machine.call r vs with f | ⟨v | text⟩
  · rw [hcall] at hstep
    exact .step hstep (.failed rfl)
  · rw [hcall] at hstep hsafe
    refine .step hstep (.here ?_)
    rw [behind, pushed_of_ne (hsafe.2.ne_void hsafe.1)]
    rfl
  · rw [hcall] at hstep
    exact .step hstep (.here rfl)

/-- A value that decides a jump. -/
theorem follows_condition {v : Value} (hv : v.Conforms .bool) :
    Follows p limit n (behind a position stack v s) Store.output
      (fun b u => .next (a.state position (stack.push (.bool b)) u))
      (Eval.ofExcept (condition v) s) := by
  obtain ⟨b, rfl⟩ := hv
  exact .here rfl

/-! ### Expressions, one by one -/

/-- Runs through the code of an expression follow its evaluation, whatever the variables hold. -/
def Expr.Traced (p : Program) (limit n : Nat) (a : Activation) (calls : Calls) (vars : List Local)
    (stack : Array Value) (start stop : Nat) (e : Expr) : Prop :=
  ∀ s, Holds vars s → Follows p limit n (.next (a.state start stack s)) Store.output
    (behind a stop stack) (e.eval calls s)

section

variable {stack : Array Value} {start mid last stop : Nat} {e left right test yes no : Expr}
  {s t : StaticType} {u v : DataType} {l : Local} {slot : UInt16}

theorem Expr.traced_literal (hset : Setting p limit n sigs calls a) {k : Literal} {i : UInt32}
    (hi : a.method.code[start]? = some (.const i))
    (hl : a.method.literals[i.toNat]? = some k) :
    (Expr.literal k).Traced p limit n a calls vars stack start (start + 1) := by
  intro s hs
  rw [Expr.eval]
  refine .step (step_const hset.method hi hl) (.here ?_)
  rw [behind, pushed_of_ne (toValue_ne_void k)]

theorem Expr.traced_unary (hset : Setting p limit n sigs calls a) (hp : Proper vars) {op : UnaryOp}
    (hi : a.method.code[mid]? = some (.unary op)) (het : e.HasType sigs vars (.of u))
    (hop : Combiner.unaryType? op u = some v)
    (he : e.Traced p limit n a calls vars stack start mid) :
    (Expr.unary op e).Traced p limit n a calls vars stack start (mid + 1) := by
  intro s hs
  rw [Expr.eval]
  have hvalued := Combiner.valued_of_unaryType? hop
  refine (he s hs).bind (Expr.ensures hset.sound hp.distinct e het hs) ?_
  rintro v u ⟨hv, hu⟩
  rw [behind, pushed_of_ne (hv.ne_void (by simpa using hvalued.1))]
  refine follows_outcome (step_unary hset.method hi v) fun w hw => ?_
  have hsafe := Machine.safe_unary hv hop
  rw [hw] at hsafe
  exact hsafe.ne_void hvalued.2

theorem Expr.traced_combine (hset : Setting p limit n sigs calls a) (hp : Proper vars)
    {op : BinaryOp} {c : Combiner} (hi : a.method.code[stop]? = some c.instr)
    (hlt : left.HasType sigs vars s) (hrt : right.HasType sigs vars t)
    (hc : Combiner.of? op s t = some (c, u))
    (hl : left.Traced p limit n a calls vars stack start mid)
    (hr : ∀ stack, right.Traced p limit n a calls vars stack mid stop) :
    (Expr.combine c left right).Traced p limit n a calls vars stack start (stop + 1) := by
  intro s hs
  rw [Expr.eval]
  have hvalued := Combiner.valued_of_of? hc
  refine (hl s hs).bind (Expr.ensures hset.sound hp.distinct left hlt hs) ?_
  rintro v u ⟨hv, hu⟩
  rw [behind, pushed_of_ne (hv.ne_void hvalued.1)]
  refine (hr (stack.push v) u hu).bind (Expr.ensures hset.sound hp.distinct right hrt hu) ?_
  rintro w x ⟨hw, hx⟩
  rw [behind, pushed_of_ne (hw.ne_void hvalued.2.1)]
  refine follows_outcome (step_combine hset.method hi v w) fun y hy => ?_
  have hsafe := Machine.safe_apply_combiner hv hw hc
  rw [hy] at hsafe
  exact hsafe.ne_void hvalued.2.2

theorem Expr.traced_andAlso (hset : Setting p limit n sigs calls a) (hp : Proper vars)
    {target : UInt32} (hdup : a.method.code[mid]? = some .dup)
    (hjump : a.method.code[mid + 1]? = some (.jumpIfFalse target))
    (hpop : a.method.code[mid + 2]? = some .pop) (hlt : left.HasType sigs vars (.of .bool))
    (hl : left.Traced p limit n a calls vars stack start mid)
    (hr : right.Traced p limit n a calls vars stack (mid + 3) target.toNat) :
    (Expr.andAlso left right).Traced p limit n a calls vars stack start target.toNat := by
  intro s hs
  rw [Expr.eval]
  refine (hl s hs).bind (Expr.ensures hset.sound hp.distinct left hlt hs) ?_
  rintro v u ⟨hv, hu⟩
  obtain ⟨b, rfl⟩ := hv
  refine .step (step_dup hset.method hdup (.bool b)) ?_
  refine .step (step_jumpIfFalse hset.method hjump b) ?_
  cases b with
  | false => exact .here rfl
  | true => exact .step (step_pop hset.method hpop (.bool true)) (hr u hu)

theorem Expr.traced_orElse (hset : Setting p limit n sigs calls a) (hp : Proper vars)
    {target : UInt32} (hdup : a.method.code[mid]? = some .dup)
    (hjump : a.method.code[mid + 1]? = some (.jumpIfTrue target))
    (hpop : a.method.code[mid + 2]? = some .pop) (hlt : left.HasType sigs vars (.of .bool))
    (hl : left.Traced p limit n a calls vars stack start mid)
    (hr : right.Traced p limit n a calls vars stack (mid + 3) target.toNat) :
    (Expr.orElse left right).Traced p limit n a calls vars stack start target.toNat := by
  intro s hs
  rw [Expr.eval]
  refine (hl s hs).bind (Expr.ensures hset.sound hp.distinct left hlt hs) ?_
  rintro v u ⟨hv, hu⟩
  obtain ⟨b, rfl⟩ := hv
  refine .step (step_dup hset.method hdup (.bool b)) ?_
  refine .step (step_jumpIfTrue hset.method hjump b) ?_
  cases b with
  | true => exact .here rfl
  | false => exact .step (step_pop hset.method hpop (.bool false)) (hr u hu)

theorem Expr.traced_assign (hset : Setting p limit n sigs calls a) (hp : Proper vars)
    (hdup : a.method.code[mid]? = some .dup)
    (hstore : a.method.code[mid + 1]? = some (.store l.slot)) (hl : l ∈ vars)
    (het : e.HasType sigs vars (.of l.type))
    (he : e.Traced p limit n a calls vars stack start mid) :
    (Expr.assign l.slot e).Traced p limit n a calls vars stack start (mid + 2) := by
  intro s hs
  rw [Expr.eval]
  refine (he s hs).bind (Expr.ensures hset.sound hp.distinct e het hs) ?_
  rintro v u ⟨hv, hu⟩
  have hne := Value.Conforms.ne_void hv (hp.valued _ hl)
  rw [behind, pushed_of_ne hne]
  refine .step (step_dup hset.method hdup v) ?_
  refine .step (step_store hset.method hstore v) (.here ?_)
  rw [behind, pushed_of_ne hne]

/-- The old value stays on the stack while the new one is computed and stored. -/
theorem Expr.traced_advance (hset : Setting p limit n sigs calls a) (hp : Proper vars)
    {op : BinaryOp} {c : Conversion} {i : UInt32}
    (hload : a.method.code[start]? = some (.load l.slot))
    (hdup : a.method.code[start + 1]? = some .dup)
    (hconst : a.method.code[start + 2]? = some (.const i))
    (hone : a.method.literals[i.toNat]? = some (.int 1))
    (hop : a.method.code[start + 3]? = some (.binary op))
    (hc : Needed a.method.code (start + 4) (c.instr l.type) stop)
    (hstore : a.method.code[stop]? = some (.store l.slot)) (hl : l ∈ vars)
    (hopt : Combiner.of? op (.of l.type) (.of .int) = some (.operator op, u))
    (hct : c.Leads (.of u) l.type) :
    (Expr.advance l.slot op c l.type).Traced p limit n a calls vars stack start (stop + 1) := by
  intro s hs
  rw [Expr.eval]
  have hvalued := Combiner.valued_of_of? hopt
  have hold : (s.slots l.slot).ConformsTo (.of l.type) := hs l hl
  have hone' : (Value.int 1).ConformsTo (.of .int) := ⟨1, rfl⟩
  have hnew := Machine.safe_apply_combiner hold hone' hopt
  have hnew' : ∀ w, (Combiner.operator op).apply (s.slots l.slot) (.int 1) = .ok w →
      w ≠ .void := by
    intro w hw
    rw [hw] at hnew
    exact hnew.ne_void hvalued.2.2
  rw [Eval.bind_apply, Eval.gets_apply]
  dsimp only
  refine .step (step_load hset.method hload) ?_
  refine .step (step_dup hset.method hdup _) ?_
  refine .step (step_const hset.method hconst hone) ?_
  refine Follows.bind (P := fun w x => w.Conforms u ∧ x = s)
    (follows_outcome (step_combine (c := .operator op) hset.method hop _ _) hnew')
    (Ensures.ofExcept hnew fun w hw => ⟨hw, rfl⟩) ?_
  rintro w x ⟨hw, rfl⟩
  refine Follows.bind (P := fun y z => y.Conforms l.type ∧ z = x)
    (follows_convert hset.method hct hc hw)
    (Ensures.ofExcept (Machine.safe_apply_conversion hct hw) fun y hy => ⟨hy, rfl⟩) ?_
  rintro y z ⟨hy, rfl⟩
  rw [behind, pushed_of_ne (hy.ne_void (hp.valued l hl))]
  refine .step (step_store hset.method hstore y) (.here ?_)
  rw [behind, pushed_of_ne (hold.ne_void hvalued.1)]

theorem Expr.traced_choose (hset : Setting p limit n sigs calls a) (hp : Proper vars)
    {toNo toEnd : UInt32} (hno : a.method.code[mid]? = some (.jumpIfFalse toNo))
    (hend : a.method.code[last]? = some (.jump toEnd)) (hto : toNo.toNat = last + 1)
    (hct : test.HasType sigs vars (.of .bool))
    (htest : test.Traced p limit n a calls vars stack start mid)
    (hyes : yes.Traced p limit n a calls vars stack (mid + 1) last)
    (helse : no.Traced p limit n a calls vars stack (last + 1) toEnd.toNat) :
    (Expr.choose test yes no).Traced p limit n a calls vars stack start toEnd.toNat := by
  intro s hs
  rw [Expr.eval]
  refine (htest s hs).bind (Expr.ensures hset.sound hp.distinct test hct hs) ?_
  rintro v u ⟨hv, hu⟩
  obtain ⟨b, rfl⟩ := hv
  refine .step (step_jumpIfFalse hset.method hno b) ?_
  cases b with
  | true =>
      refine (hyes u hu).extend fun w x => ⟨1, ?_⟩
      rw [Machine.after_one]
      exact step_jump hset.method hend
  | false =>
      rw [if_neg Bool.false_ne_true, hto]
      exact helse u hu

end

mutual

/-- A run through the code of an expression follows its evaluation. -/
theorem Expr.follows (hset : Setting p limit n sigs calls a) (hp : Proper vars) : ∀ (e : Expr)
    {t : StaticType} {start stop : Nat} (stack : Array Value),
    e.Laid a.method.code a.method.literals start stop → e.HasType sigs vars t →
      e.Traced p limit n a calls vars stack start stop
  | .literal l, t, start, stop, stack, h, ht => by
      cases h with
      | literal hi hl => exact Expr.traced_literal hset hi hl
  | .load slot, t, start, stop, stack, h, ht => by
      intro s hs
      rw [Expr.eval]
      cases h with
      | load hi =>
          cases ht with
          | load hl => exact follows_load hset (hp.valued _ hl) (hs _ hl) hi
  | .convert c target e, t, start, stop, stack, h, ht => by
      intro s hs
      rw [Expr.eval]
      cases h with
      | convert he hi =>
          cases ht with
          | convert het hc =>
              refine (Expr.follows hset hp e stack he het s hs).bind
                (Expr.ensures hset.sound hp.distinct e het hs) fun v u ⟨hv, hu⟩ => ?_
              exact follows_convert hset.method hc hi hv
  | .settle c target e, t, start, stop, stack, h, ht => by
      intro s hs
      rw [Expr.eval]
      cases h with
      | settle he hi =>
          cases ht with
          | settle het hc =>
              refine (Expr.follows hset hp e stack he het s hs).bind
                (Expr.ensures hset.sound hp.distinct e het hs) fun v u ⟨hv, hu⟩ => ?_
              exact follows_settle hset.method hc hi hv
          | kept het =>
              refine (Expr.follows hset hp e stack he het s hs).bind
                (Expr.ensures hset.sound hp.distinct e het hs) fun v u ⟨hv, hu⟩ => ?_
              exact .step (step_nop hset.method hi) (.here rfl)
  | .unary op e, t, start, stop, stack, h, ht => by
      cases h with
      | unary he hi =>
          cases ht with
          | unary het hop =>
              exact Expr.traced_unary hset hp hi het hop (Expr.follows hset hp e stack he het)
  | .combine c left right, t, start, stop, stack, h, ht => by
      cases h with
      | combine hl hr hi =>
          cases ht with
          | combine hlt hrt hc =>
              exact Expr.traced_combine hset hp hi hlt hrt hc
                (Expr.follows hset hp left stack hl hlt)
                fun stack => Expr.follows hset hp right stack hr hrt
  | .andAlso left right, t, start, stop, stack, h, ht => by
      cases h with
      | andAlso hl hdup hjump hpop hr =>
          cases ht with
          | andAlso hlt hrt =>
              exact Expr.traced_andAlso hset hp hdup hjump hpop hlt
                (Expr.follows hset hp left stack hl hlt) (Expr.follows hset hp right stack hr hrt)
  | .orElse left right, t, start, stop, stack, h, ht => by
      cases h with
      | orElse hl hdup hjump hpop hr =>
          cases ht with
          | orElse hlt hrt =>
              exact Expr.traced_orElse hset hp hdup hjump hpop hlt
                (Expr.follows hset hp left stack hl hlt) (Expr.follows hset hp right stack hr hrt)
  | .assign slot e, t, start, stop, stack, h, ht => by
      cases h with
      | assign he hdup hstore =>
          cases ht with
          | assign hl het =>
              exact Expr.traced_assign hset hp hdup hstore hl het
                (Expr.follows hset hp e stack he het)
  | .advance slot op c target, t, start, stop, stack, h, ht => by
      cases h with
      | advance hload hdup hconst hone hop hc hstore =>
          cases ht with
          | advance hl hopt hct =>
              exact Expr.traced_advance hset hp hload hdup hconst hone hop hc hstore hl hopt hct
  | .choose test yes no, t, start, stop, stack, h, ht => by
      cases h with
      | choose hc hno hy hend hto hn =>
          cases ht with
          | choose hct hyt hnt =>
              exact Expr.traced_choose hset hp hno hend hto hct
                (Expr.follows hset hp test stack hc hct) (Expr.follows hset hp yes stack hy hyt)
                (Expr.follows hset hp no stack hn hnt)
  | .call method args, t, start, stop, stack, h, ht => by
      intro s hs
      rw [Expr.eval]
      cases h with
      | call hargs hi =>
          cases ht with
          | call hm hargst =>
              refine (follows_evalArgs hset hp args stack hargs hargst hs).bind
                (ensures_evalArgs hset.sound hp.distinct args hargst hs) fun vs u ⟨hvs, hu⟩ => ?_
              exact follows_call hset hm hvs hi
  | .routine r args, t, start, stop, stack, h, ht => by
      intro s hs
      rw [Expr.eval]
      cases h with
      | routine hargs hi =>
          cases ht with
          | routine hr hargst =>
              refine (follows_evalArgs hset hp args stack hargs hargst hs).bind
                (ensures_evalArgs hset.sound hp.distinct args hargst hs) fun vs u ⟨hvs, hu⟩ => ?_
              exact follows_routine hset hr hvs hi

theorem follows_evalArgs (hset : Setting p limit n sigs calls a) (hp : Proper vars) :
    ∀ (es : List Expr) {ts : List DataType} {start stop : Nat} {s : Store} (stack : Array Value),
    ArgsLaid a.method.code a.method.literals start es stop → ArgsHaveTypes sigs vars es ts →
      Holds vars s →
      Follows p limit n (.next (a.state start stack s)) Store.output
        (fun vs u => .next (a.state stop (stack ++ vs.toArray) u)) (evalArgs calls es s)
  | [], ts, start, stop, s, stack, h, hts, hs => by
      rw [evalArgs]
      cases h with
      | nil => exact .here (by simp)
  | e :: es, ts, start, stop, s, stack, h, hts, hs => by
      rw [evalArgs]
      cases h with
      | cons he hes =>
          cases hts with
          | cons hvoid het hest =>
              refine (Expr.follows hset hp e stack he het s hs).bind
                (Expr.ensures hset.sound hp.distinct e het hs) fun v u ⟨hv, hu⟩ => ?_
              rw [behind, pushed_of_ne (hv.ne_void (by simpa using hvoid))]
              refine (follows_evalArgs hset hp es (stack.push v) hes hest hu).bind
                (ensures_evalArgs hset.sound hp.distinct es hest hu) fun vs w _ => ?_
              exact .here (by simp)

end

end

end Scriptlet.Core
