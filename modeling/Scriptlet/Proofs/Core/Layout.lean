import Scriptlet.Core

namespace Scriptlet.Core

/-!
# Code layouts

Where the code of a core program stands in the code of its method. A part of a program is laid out
between two places; jumps lead to the places that the form of the part tells. How the code came to
stand there is left open.
-/

open Code (Instr Literal)

/-- An instruction between two places, or nothing if the instruction does nothing. -/
def Needed (code : Array Instr) (start : Nat) (i : Instr) (stop : Nat) : Prop :=
  if i = .nop then stop = start else code[start]? = some i ∧ stop = start + 1

@[simp] theorem needed_nop (code : Array Instr) (start stop : Nat) :
    Needed code start .nop stop ↔ stop = start := by
  simp [Needed]

theorem needed_iff {i : Instr} (hi : i ≠ .nop) (code : Array Instr) (start stop : Nat) :
    Needed code start i stop ↔ code[start]? = some i ∧ stop = start + 1 := by
  simp [Needed, hi]

mutual

/-- The code of an expression, between two places of a method with a pool of literals. -/
inductive Expr.Laid (code : Array Instr) (pool : Array Literal) : Nat → Expr → Nat → Prop where
  | literal {start l n} : code[start]? = some (.const n) → pool[n.toNat]? = some l →
      Expr.Laid code pool start (.literal l) (start + 1)
  | load {start slot} : code[start]? = some (.load slot) →
      Expr.Laid code pool start (.load slot) (start + 1)
  | convert {start c target e mid stop} : Expr.Laid code pool start e mid →
      Needed code mid (c.instr target) stop →
      Expr.Laid code pool start (.convert c target e) stop
  | settle {start c target e mid} : Expr.Laid code pool start e mid →
      code[mid]? = some (c.instr target) →
      Expr.Laid code pool start (.settle c target e) (mid + 1)
  | unary {start op e mid} : Expr.Laid code pool start e mid → code[mid]? = some (.unary op) →
      Expr.Laid code pool start (.unary op e) (mid + 1)
  | combine {start c left right mid stop} : Expr.Laid code pool start left mid →
      Expr.Laid code pool mid right stop → code[stop]? = some c.instr →
      Expr.Laid code pool start (.combine c left right) (stop + 1)
  | andAlso {start left right mid target} : Expr.Laid code pool start left mid →
      code[mid]? = some .dup → code[mid + 1]? = some (.jumpIfFalse target) →
      code[mid + 2]? = some .pop → Expr.Laid code pool (mid + 3) right target.toNat →
      Expr.Laid code pool start (.andAlso left right) target.toNat
  | orElse {start left right mid target} : Expr.Laid code pool start left mid →
      code[mid]? = some .dup → code[mid + 1]? = some (.jumpIfTrue target) →
      code[mid + 2]? = some .pop → Expr.Laid code pool (mid + 3) right target.toNat →
      Expr.Laid code pool start (.orElse left right) target.toNat
  | assign {start slot e mid} : Expr.Laid code pool start e mid → code[mid]? = some .dup →
      code[mid + 1]? = some (.store slot) →
      Expr.Laid code pool start (.assign slot e) (mid + 2)
  | advance {start slot op c target n stop} : code[start]? = some (.load slot) →
      code[start + 1]? = some .dup → code[start + 2]? = some (.const n) →
      pool[n.toNat]? = some (.int 1) → code[start + 3]? = some (.binary op) →
      Needed code (start + 4) (c.instr target) stop → code[stop]? = some (.store slot) →
      Expr.Laid code pool start (.advance slot op c target) (stop + 1)
  | choose {start condition yes no mid toNo last toEnd} :
      Expr.Laid code pool start condition mid → code[mid]? = some (.jumpIfFalse toNo) →
      Expr.Laid code pool (mid + 1) yes last → code[last]? = some (.jump toEnd) →
      toNo.toNat = last + 1 → Expr.Laid code pool (last + 1) no toEnd.toNat →
      Expr.Laid code pool start (.choose condition yes no) toEnd.toNat
  | call {start method args mid} : ArgsLaid code pool start args mid →
      code[mid]? = some (.call method.cls method.method) →
      Expr.Laid code pool start (.call method args) (mid + 1)
  | routine {start r args mid} : ArgsLaid code pool start args mid →
      code[mid]? = some (.routine r) →
      Expr.Laid code pool start (.routine r args) (mid + 1)

/-- The code of expressions, one behind the other. -/
inductive ArgsLaid (code : Array Instr) (pool : Array Literal) : Nat → List Expr → Nat → Prop where
  | nil {start} : ArgsLaid code pool start [] start
  | cons {start e mid es stop} : Expr.Laid code pool start e mid →
      ArgsLaid code pool mid es stop → ArgsLaid code pool start (e :: es) stop

end

mutual

/-- The code of a statement in a loop that is left at `leaving` and goes on with its next round at
`again`. -/
inductive Stmt.Laid (code : Array Instr) (pool : Array Literal) :
    Nat → Nat → Nat → Stmt → Nat → Prop where
  | block {leaving again start body stop} : BlockLaid code pool leaving again start body stop →
      Stmt.Laid code pool leaving again start (.block body) stop
  | store {leaving again start slot e mid} : e.Laid code pool start mid →
      code[mid]? = some (.store slot) →
      Stmt.Laid code pool leaving again start (.store slot e) (mid + 1)
  | eval {leaving again start e hasValue mid stop} : e.Laid code pool start mid →
      Needed code mid (if hasValue then .pop else .nop) stop →
      Stmt.Laid code pool leaving again start (.eval e hasValue) stop
  | condOnly {leaving again start condition yes mid target} : condition.Laid code pool start mid →
      code[mid]? = some (.jumpIfFalse target) →
      Stmt.Laid code pool leaving again (mid + 1) yes target.toNat →
      Stmt.Laid code pool leaving again start (.cond condition yes none) target.toNat
  | condElse {leaving again start condition yes no mid toNo last toEnd} :
      condition.Laid code pool start mid → code[mid]? = some (.jumpIfFalse toNo) →
      Stmt.Laid code pool leaving again (mid + 1) yes last → code[last]? = some (.jump toEnd) →
      toNo.toNat = last + 1 → Stmt.Laid code pool leaving again (last + 1) no toEnd.toNat →
      Stmt.Laid code pool leaving again start (.cond condition yes (some no)) toEnd.toNat
  | loop {leaving again start condition body mid last exit back} :
      condition.Laid code pool start mid → code[mid]? = some (.jumpIfFalse exit) →
      Stmt.Laid code pool (last + 1) start (mid + 1) body last →
      code[last]? = some (.jump back) → back.toNat = start → exit.toNat = last + 1 →
      Stmt.Laid code pool leaving again start (.loop condition body) (last + 1)
  | doLoop {leaving again start body condition mid last back} :
      Stmt.Laid code pool (last + 1) mid start body mid → condition.Laid code pool mid last →
      code[last]? = some (.jumpIfTrue back) → back.toNat = start →
      Stmt.Laid code pool leaving again start (.doLoop body condition) (last + 1)
  | forEver {leaving again start body steps mid last back} :
      Stmt.Laid code pool (last + 1) mid start body mid →
      BlockLaid code pool leaving again mid steps last → code[last]? = some (.jump back) →
      back.toNat = start →
      Stmt.Laid code pool leaving again start (.forLoop none body steps) (last + 1)
  | forWhile {leaving again start condition body steps mid next last exit back} :
      condition.Laid code pool start mid → code[mid]? = some (.jumpIfFalse exit) →
      Stmt.Laid code pool (last + 1) next (mid + 1) body next →
      BlockLaid code pool leaving again next steps last → code[last]? = some (.jump back) →
      back.toNat = start → exit.toNat = last + 1 →
      Stmt.Laid code pool leaving again start (.forLoop (some condition) body steps) (last + 1)
  | retVoid {leaving again start} : code[start]? = some .retVoid →
      Stmt.Laid code pool leaving again start (.ret none) (start + 1)
  | ret {leaving again start e mid} : e.Laid code pool start mid → code[mid]? = some .ret →
      Stmt.Laid code pool leaving again start (.ret (some e)) (mid + 1)
  | throw {leaving again start e mid} : e.Laid code pool start mid → code[mid]? = some .throw →
      Stmt.Laid code pool leaving again start (.throw e) (mid + 1)
  | leave {leaving again start target} : code[start]? = some (.jump target) →
      target.toNat = leaving → Stmt.Laid code pool leaving again start .leave (start + 1)
  | next {leaving again start target} : code[start]? = some (.jump target) →
      target.toNat = again → Stmt.Laid code pool leaving again start .next (start + 1)

/-- The code of statements, one behind the other. -/
inductive BlockLaid (code : Array Instr) (pool : Array Literal) :
    Nat → Nat → Nat → List Stmt → Nat → Prop where
  | nil {leaving again start} : BlockLaid code pool leaving again start [] start
  | cons {leaving again start s mid rest stop} :
      Stmt.Laid code pool leaving again start s mid →
      BlockLaid code pool leaving again mid rest stop →
      BlockLaid code pool leaving again start (s :: rest) stop

end

end Scriptlet.Core
