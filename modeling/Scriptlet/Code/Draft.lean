import Scriptlet.Code.Module

namespace Scriptlet.Code

/-!
# Drafts

A method while it is written. Instructions are added at the end and keep their places. A jump whose
target is not known yet is written with a placeholder and gets its target later.
-/

structure Draft where
  code : Array Instr
  literals : Array Literal
  /-- The number of local slots. -/
  locals : UInt16

def Draft.empty : Draft :=
  ⟨#[], #[], 0⟩

/-- The instruction with another target, if it is a jump. -/
def Instr.withTarget (target : UInt32) : Instr → Instr
  | .jump _ => .jump target
  | .jumpIfFalse _ => .jumpIfFalse target
  | .jumpIfTrue _ => .jumpIfTrue target
  | i => i

/-- The greatest operand, which stands for a target that is not known yet. -/
def placeholder : UInt32 := 0xFFFFFFFF

/-- A place as an operand; places beyond the greatest operand count as that one. -/
def placeOperand (n : Nat) : UInt32 :=
  UInt32.ofNat (min n placeholder.toNat)

abbrev Drafting :=
  StateM Draft

namespace Drafting

/-- The place of the next instruction. -/
def here : Drafting Nat :=
  return (← get).code.size

/-- Adds an instruction and answers its place. -/
def emit (i : Instr) : Drafting Nat :=
  modifyGet fun d => (d.code.size, { d with code := d.code.push i })

def add (i : Instr) : Drafting Unit :=
  discard (emit i)

/-- Adds the instruction that pushes a literal. Equal literals share a place in the pool. -/
def literal (l : Literal) : Drafting Nat := do
  match (← get).literals.findIdx? (· == l) with
  | some index => emit (.const (placeOperand index))
  | none =>
      let index := (← get).literals.size
      modify fun d => { d with literals := d.literals.push l }
      emit (.const (placeOperand index))

def addLiteral (l : Literal) : Drafting Unit :=
  discard (literal l)

/-- Adds a jump without a target. -/
def jump (make : UInt32 → Instr) : Drafting Nat :=
  emit (make placeholder)

/-- Puts an instruction in the place of another one. -/
def replace (place : Nat) (i : Instr) : Drafting Unit :=
  modify fun d => { d with code := d.code.setIfInBounds place i }

/-- Gives the jump at a place its target. -/
def aim (place target : Nat) : Drafting Unit := do
  if let some i := (← get).code[place]? then
    replace place (i.withTarget (placeOperand target))

/-- Lets the jump at a place go on here. -/
def land (place : Nat) : Drafting Unit := do
  aim place (← here)

/-- Reserves a local slot. -/
def reserve : Drafting UInt16 :=
  modifyGet fun d =>
    (d.locals, { d with locals := if d.locals = 0xFFFF then d.locals else d.locals + 1 })

@[simp] theorem run_here (d : Draft) : here.run d = (d.code.size, d) := rfl

@[simp] theorem run_emit (i : Instr) (d : Draft) :
    (emit i).run d = (d.code.size, { d with code := d.code.push i }) := rfl

@[simp] theorem run_add (i : Instr) (d : Draft) :
    (add i).run d = ((), { d with code := d.code.push i }) := rfl

@[simp] theorem run_jump (make : UInt32 → Instr) (d : Draft) :
    (jump make).run d = (d.code.size, { d with code := d.code.push (make placeholder) }) := rfl

@[simp] theorem run_replace (place : Nat) (i : Instr) (d : Draft) :
    (replace place i).run d = ((), { d with code := d.code.setIfInBounds place i }) := rfl

end Drafting

end Scriptlet.Code
