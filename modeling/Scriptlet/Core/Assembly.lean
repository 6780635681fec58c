import Scriptlet.Core

namespace Scriptlet.Core

/-!
# Assembling core programs

The code of a core program. Operands are written before their operators. A jump forward is written
without a target, and lands once the code in between is written.
-/

open Code (Draft Drafting Instr)
open Code.Drafting

/-- Adds an instruction unless it does nothing. -/
def emitNeeded (i : Instr) : Drafting Unit := do
  if i ≠ .nop then
    add i

mutual

/-- Writes the code that pushes the value of an expression. -/
def Expr.assemble : Expr → Drafting Unit
  | .literal l => addLiteral l
  | .load slot => add (.load slot)
  | .convert c target e => do
      e.assemble
      emitNeeded (c.instr target)
  | .settle c target e => do
      e.assemble
      add (c.instr target)
  | .unary op e => do
      e.assemble
      add (.unary op)
  | .combine c left right => do
      left.assemble
      right.assemble
      add c.instr
  | .andAlso left right => do
      left.assemble
      add .dup
      let decided ← jump .jumpIfFalse
      add .pop
      right.assemble
      land decided
  | .orElse left right => do
      left.assemble
      add .dup
      let decided ← jump .jumpIfTrue
      add .pop
      right.assemble
      land decided
  | .assign slot e => do
      e.assemble
      add .dup
      add (.store slot)
  | .advance slot op c target => do
      add (.load slot)
      add .dup
      addLiteral (.int 1)
      add (.binary op)
      emitNeeded (c.instr target)
      add (.store slot)
  | .choose condition yes no => do
      condition.assemble
      let toNo ← jump .jumpIfFalse
      yes.assemble
      let toEnd ← jump .jump
      land toNo
      no.assemble
      land toEnd
  | .call method args => do
      assembleArgs args
      add (.call method.cls method.method)
  | .routine r args => do
      assembleArgs args
      add (.routine r)

def assembleArgs : List Expr → Drafting Unit
  | [] => return ()
  | e :: es => do
      e.assemble
      assembleArgs es

end

/-- The jumps out of a statement that wait for the end or for the next round of the loop around
it. -/
structure Pending where
  leaves : List Nat
  nexts : List Nat

namespace Pending

def none : Pending :=
  ⟨[], []⟩

def append (p q : Pending) : Pending :=
  ⟨p.leaves ++ q.leaves, p.nexts ++ q.nexts⟩

/-- Lets the jumps that leave the loop land here. -/
def landLeaves (p : Pending) : Drafting Unit :=
  p.leaves.forM land

/-- Aims the jumps to the next round. -/
def aimNexts (p : Pending) (target : Nat) : Drafting Unit :=
  p.nexts.forM (aim · target)

end Pending

mutual

/-- Writes the code of a statement and answers the jumps that leave it for the loop around it. -/
def Stmt.assemble : Stmt → Drafting Pending
  | .block body => assembleBlock body
  | .store slot e => do
      e.assemble
      add (.store slot)
      return .none
  | .eval e hasValue => do
      e.assemble
      if hasValue then
        add .pop
      return .none
  | .cond condition yes none => do
      condition.assemble
      let toEnd ← jump .jumpIfFalse
      let p ← yes.assemble
      land toEnd
      return p
  | .cond condition yes (some no) => do
      condition.assemble
      let toNo ← jump .jumpIfFalse
      let p ← yes.assemble
      let toEnd ← jump .jump
      land toNo
      let q ← no.assemble
      land toEnd
      return p.append q
  | .loop condition body => do
      let top ← here
      condition.assemble
      let exit ← jump .jumpIfFalse
      let p ← body.assemble
      p.aimNexts top
      let back ← jump .jump
      aim back top
      land exit
      p.landLeaves
      return .none
  | .doLoop body condition => do
      let top ← here
      let p ← body.assemble
      p.aimNexts (← here)
      condition.assemble
      let back ← jump .jumpIfTrue
      aim back top
      p.landLeaves
      return .none
  | .forLoop condition body steps => do
      let top ← here
      let exit ← condition.mapM fun c => do
        c.assemble
        jump .jumpIfFalse
      let p ← body.assemble
      p.aimNexts (← here)
      let _ ← assembleBlock steps
      let back ← jump .jump
      aim back top
      exit.forM land
      p.landLeaves
      return .none
  | .ret (some e) => do
      e.assemble
      add .ret
      return .none
  | .ret none => do
      add .retVoid
      return .none
  | .throw e => do
      e.assemble
      add .throw
      return .none
  | .leave => do
      return ⟨[← jump .jump], []⟩
  | .next => do
      return ⟨[], [← jump .jump]⟩

def assembleBlock : List Stmt → Drafting Pending
  | [] => return .none
  | s :: rest => do
      let p ← s.assemble
      return p.append (← assembleBlock rest)

end

/-- The compiled method. A body whose end can be reached returns there. -/
def Method.assemble (m : Method) : Code.Method :=
  let write : Drafting Unit := do
    let _ ← m.body.assemble
    if m.endsOpen then
      add .retVoid
  let d := (write.run m.draft).2
  let s := m.signature
  ⟨s.name, s.isPublic, s.isStatic, s.params, s.paramNames, s.result, d.locals, d.literals, d.code⟩

def Class.assemble (c : Class) : Code.Class :=
  ⟨c.name, (c.methods.map Method.assemble).toArray⟩

/-- The compiled module of a name. -/
def assemble (name : String) (classes : List Class) : Code.Module :=
  ⟨name, (classes.map Class.assemble).toArray⟩

end Scriptlet.Core
