import Scriptlet.Machine.Library
import Scriptlet.Machine.Program

namespace Scriptlet.Machine

/-!
# Runs

One operand stack is shared by all active calls, and a list of frames says which methods are active.
Each frame remembers how high the stack was when it was entered; returning cuts the stack back to
that height. It also counts the frames up to itself, so that entering a call need not count them.
A run is a sequence of steps. A program that never ends has a run of every length and no outcome.
-/

open Code (Instr Method Handle)

/-- An active call. -/
structure Frame where
  handle : Handle
  position : Nat
  locals : Array Value
  /-- The height of the operand stack when the frame was entered. -/
  base : Nat
  /-- The number of active calls when the frame was entered, itself included. -/
  depth : Nat

/-- The number of active calls, as the innermost one has it. -/
def depth : List Frame → Nat
  | [] => 0
  | frame :: _ => frame.depth

/-- Every frame counts itself and the frames below it. -/
def Counted : List Frame → Prop
  | [] => True
  | frame :: rest => frame.depth = rest.length + 1 ∧ Counted rest

theorem Counted.depth_eq {frames : List Frame} (h : Counted frames) :
    depth frames = frames.length := by
  cases frames with
  | nil => rfl
  | cons frame rest => exact h.1

/-- The frame with another value in a slot. -/
def Frame.assign (f : Frame) (slot : Nat) (v : Value) : Frame :=
  match f with
  | ⟨handle, position, locals, base, depth⟩ =>
      ⟨handle, position, locals.setIfInBounds slot v, base, depth⟩

structure State where
  stack : Array Value
  /-- The innermost call comes first. -/
  frames : List Frame
  output : String

/-- What one step leads to. -/
inductive Step where
  | next (s : State)
  | done (v : Value) (output : String)
  | failed (f : Fault) (output : String)

/-- How many calls may be active at the same time by default. -/
def defaultDepth : Nat := 1024

/-- Pushes the result of an operation. -/
def push (stack : Array Value) (frames : List Frame) (output : String) :
    Except Fault Value → Step
  | .ok v => .next ⟨stack.push v, frames, output⟩
  | .error f => .failed f output

/-- Pops an operand and goes on with it. -/
@[inline] def withTop (stack : Array Value) (output : String) (k : Value → Array Value → Step) :
    Step :=
  match stack.back? with
  | some v => k v stack.pop
  | none => .failed (.defective .underflow) output

/-- Pops a condition and goes on with it. -/
@[inline] def withCondition (stack : Array Value) (output : String)
    (k : Bool → Array Value → Step) : Step :=
  withTop stack output fun v stack =>
    match v with
    | .bool b => k b stack
    | _ => .failed (.defective (.branch v.runtimeName)) output

/-- Pops `n` operands and goes on with them in the order in which they were pushed. -/
@[inline] def withOperands (n : Nat) (stack : Array Value) (output : String)
    (k : List Value → Array Value → Step) : Step :=
  if n ≤ stack.size then
    k (stack.extract (stack.size - n) stack.size).toList (stack.shrink (stack.size - n))
  else .failed (.defective .underflow) output

/-- The local slots of a call: the arguments, and null in the others. -/
def slots (args : List Value) (count : Nat) : Array Value :=
  (args.take count ++ List.replicate (count - args.length) Value.null).toArray

def enter (p : Program) (limit : Nat) (h : Handle) (args : List Value) (stack : Array Value)
    (frames : List Frame) (output : String) : Step :=
  if limit ≤ depth frames then .failed (.failed .stackExhausted) output
  else
    match p.method? h with
    | none => .failed (.defective .outsideModule) output
    | some m =>
        .next ⟨stack, ⟨h, 0, slots args m.locals.toNat, stack.size, depth frames + 1⟩ :: frames,
          output⟩

/-- Returns from a frame with frames `rest` below it. A method without a result leaves nothing on
the stack, and as the outermost call has the void value. -/
def leave (frame : Frame) (rest : List Frame) (stack : Array Value) (output : String)
    (result : Option Value) : Step :=
  match rest with
  | [] => .done (result.getD .void) output
  | _ =>
      let stack := stack.shrink frame.base
      match result with
      | some v => .next ⟨stack.push v, rest, output⟩
      | none => .next ⟨stack, rest, output⟩

/-- The fault that throwing a value raises. -/
def throwFault : Value → Fault
  | .exception c message => .thrown c message
  | .null => .failed .nullReference
  | v => .defective (.thrown v.runtimeName)

/-- Executes an instruction of a method in a frame that has already moved on to the next one. -/
def execute (p : Program) (limit : Nat) (m : Method) (i : Instr) (stack : Array Value)
    (frame : Frame) (rest : List Frame) (output : String) : Step :=
  match i with
  | .const n =>
      match m.literals[n.toNat]? with
      | some l => .next ⟨stack.push l.toValue, frame :: rest, output⟩
      | none => .failed (.defective .literalOutOfRange) output
  | .load n =>
      match frame.locals[n.toNat]? with
      | some v => .next ⟨stack.push v, frame :: rest, output⟩
      | none => .failed (.defective .slotOutOfRange) output
  | .store n =>
      withTop stack output fun v stack =>
        if n.toNat < frame.locals.size then
          .next ⟨stack, frame.assign n.toNat v :: rest, output⟩
        else .failed (.defective .slotOutOfRange) output
  | .pop => withTop stack output fun _ stack => .next ⟨stack, frame :: rest, output⟩
  | .dup => withTop stack output fun v stack => .next ⟨(stack.push v).push v, frame :: rest, output⟩
  | .nop => .next ⟨stack, frame :: rest, output⟩
  | .binary op =>
      withTop stack output fun right stack =>
        withTop stack output fun left stack =>
          push stack (frame :: rest) output (binary op left right)
  | .unary op =>
      withTop stack output fun v stack => push stack (frame :: rest) output (unary op v)
  | .concat =>
      withTop stack output fun right stack =>
        withTop stack output fun left stack =>
          .next ⟨stack.push (.string (left.text ++ right.text)), frame :: rest, output⟩
  | .convert t => withTop stack output fun v stack => push stack (frame :: rest) output (cast v t)
  | .unbox t => withTop stack output fun v stack => push stack (frame :: rest) output (unbox v t)
  | .jump n => .next ⟨stack, { frame with position := n.toNat } :: rest, output⟩
  | .jumpIfFalse n =>
      withCondition stack output fun b stack =>
        if b then .next ⟨stack, frame :: rest, output⟩
        else .next ⟨stack, { frame with position := n.toNat } :: rest, output⟩
  | .jumpIfTrue n =>
      withCondition stack output fun b stack =>
        if b then .next ⟨stack, { frame with position := n.toNat } :: rest, output⟩
        else .next ⟨stack, frame :: rest, output⟩
  | .call c k =>
      match p.method? ⟨c, k⟩ with
      | none => .failed (.defective .outsideModule) output
      | some callee =>
          withOperands callee.params.length stack output fun args stack =>
            enter p limit ⟨c, k⟩ args stack (frame :: rest) output
  | .routine r =>
      withOperands r.arity stack output fun args stack =>
        match call r args with
        | .ok (.value v) => .next ⟨stack.push v, frame :: rest, output⟩
        | .ok (.print text) => .next ⟨stack, frame :: rest, output ++ text⟩
        | .error f => .failed f output
  | .ret => withTop stack output fun v stack => leave frame rest stack output (some v)
  | .retVoid => leave frame rest stack output none
  | .throw => withTop stack output fun v _ => .failed (throwFault v) output

/-- One step of a run. The end of the code is a return without a value. -/
def step (p : Program) (limit : Nat) : State → Step
  | ⟨_, [], output⟩ => .failed (.defective .noFrame) output
  | ⟨stack, frame :: rest, output⟩ =>
      match p.method? frame.handle with
      | none => .failed (.defective .outsideModule) output
      | some m =>
          match m.code[frame.position]? with
          | none => leave frame rest stack output none
          | some i =>
              execute p limit m i stack { frame with position := frame.position + 1 } rest output

/-- How a run ended, with all that it printed. -/
structure Outcome where
  result : Except Fault Value
  output : String

/-- At most `fuel` steps of a run; nothing if it has not ended by then. -/
def runFrom (p : Program) (limit : Nat) : Nat → Step → Option Outcome
  | _, .done v output => some ⟨.ok v, output⟩
  | _, .failed f output => some ⟨.error f, output⟩
  | 0, .next _ => none
  | fuel + 1, .next s => runFrom p limit fuel (step p limit s)

/-- The first state of a call of a method, with arguments that have been bound. -/
def start (p : Program) (limit : Nat) (h : Handle) (args : List Value) : Step :=
  match p.method? h with
  | none => .failed (.defective .outsideModule) ""
  | some m =>
      if args.length = m.params.length then enter p limit h args #[] [] ""
      else .failed (.defective (.argumentCount m.signature args.length)) ""

/-- Runs a method within `fuel` steps. -/
def invoke (p : Program) (limit fuel : Nat) (h : Handle) (args : List Value) : Option Outcome :=
  runFrom p limit fuel (start p limit h args)

end Scriptlet.Machine
