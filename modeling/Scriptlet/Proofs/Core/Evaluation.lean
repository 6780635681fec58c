import Scriptlet.Core
import Scriptlet.Proofs.Meaning.Eval

namespace Scriptlet.Core

/-!
# Evaluation of core programs

What core programs mean, without code. Variables are slots, every slot of a call holds a value, and
the slots of a call are its own.
-/

open Code (Handle Literal)

/-- The variables of an active call, and what the program has printed. -/
structure Store where
  slots : UInt16 → Value
  output : String

namespace Store

def assign (s : Store) (slot : UInt16) (v : Value) : Store :=
  ⟨fun i => if i = slot then v else s.slots i, s.output⟩

@[simp] theorem slots_assign (s : Store) (slot i : UInt16) (v : Value) :
    (s.assign slot v).slots i = if i = slot then v else s.slots i := rfl

/-- The slots of a call with its arguments; the others hold null. -/
def ofArgs (args : List Value) (output : String) : Store :=
  ⟨fun i => args.getD i.toNat .null, output⟩

end Store

/-- A computation that can only print. -/
def printing {α : Type} (x : Eval String α) : Eval Store α :=
  Eval.onPart Store.output (fun s output => ⟨s.slots, output⟩) x

mutual

/-- The value of an expression. Operands are evaluated from left to right. -/
def Expr.eval (calls : Calls) : Expr → Eval Store Value
  | .literal l => return l.toValue
  | .load slot => Eval.gets (·.slots slot)
  | .convert c target e | .settle c target e => do
      let v ← e.eval calls
      Eval.ofExcept (c.apply target v)
  | .unary op e => do
      let v ← e.eval calls
      Eval.ofExcept (Machine.unary op v)
  | .combine c left right => do
      let v ← left.eval calls
      let w ← right.eval calls
      Eval.ofExcept (c.apply v w)
  | .andAlso left right => do
      let v ← left.eval calls
      if ← Eval.ofExcept (condition v) then right.eval calls else return .bool false
  | .orElse left right => do
      let v ← left.eval calls
      if ← Eval.ofExcept (condition v) then return .bool true else right.eval calls
  | .assign slot e => do
      let v ← e.eval calls
      Eval.update (·.assign slot v)
      return v
  | .advance slot op c target => do
      let old ← Eval.gets (·.slots slot)
      let new ← Eval.ofExcept (Machine.binary op old (.int 1))
      let new ← Eval.ofExcept (c.apply target new)
      Eval.update (·.assign slot new)
      return old
  | .choose test yes no => do
      let v ← test.eval calls
      if ← Eval.ofExcept (condition v) then yes.eval calls else no.eval calls
  | .call method args => do
      let vs ← evalArgs calls args
      printing (calls method vs)
  | .routine r args => do
      let vs ← evalArgs calls args
      printing (perform r vs)

def evalArgs (calls : Calls) : List Expr → Eval Store (List Value)
  | [] => return []
  | e :: es => do
      let v ← e.eval calls
      let vs ← evalArgs calls es
      return v :: vs

end

/-- The truth of a condition. -/
def Expr.test (calls : Calls) (e : Expr) : Eval Store Bool := do
  let v ← e.eval calls
  Eval.ofExcept (condition v)

/-- The truth of a condition that may be missing, and then holds. -/
def testOf (calls : Calls) : Option Expr → Eval Store Bool
  | none => return true
  | some e => e.test calls

mutual

/-- Runs a statement; each loop makes at most `fuel` rounds. -/
def Stmt.exec (calls : Calls) (fuel : Nat) : Stmt → Eval Store Ending
  | .block body => execBlock calls fuel body
  | .store slot e => do
      let v ← e.eval calls
      Eval.update (·.assign slot v)
      return .normal
  | .eval e _ => do
      let _ ← e.eval calls
      return .normal
  | .cond test yes none => do
      if ← test.test calls then yes.exec calls fuel else return .normal
  | .cond test yes (some no) => do
      if ← test.test calls then yes.exec calls fuel else no.exec calls fuel
  | .loop test body => Eval.loop (test.test calls) (body.exec calls fuel) (return ()) fuel
  | .doLoop body test => Eval.doLoop (body.exec calls fuel) (test.test calls) fuel
  | .forLoop test body steps =>
      Eval.loop (testOf calls test) (body.exec calls fuel)
        (do
          let _ ← execBlock calls fuel steps
          return ())
        fuel
  | .ret none => return .ret .void
  | .ret (some e) => do
      let v ← e.eval calls
      return .ret v
  | .throw e => do
      let v ← e.eval calls
      Eval.fail (Machine.throwFault v)
  | .leave => return .leave
  | .next => return .next

def execBlock (calls : Calls) (fuel : Nat) : List Stmt → Eval Store Ending
  | [] => return .normal
  | s :: rest => do
      match ← s.exec calls fuel with
      | .normal => execBlock calls fuel rest
      | ending => return ending

end

section

variable {calls : Calls} {fuel : Nat}

theorem Expr.eval_settle_identity (t : DataType) (e : Expr) :
    (Expr.settle .identity t e).eval calls = e.eval calls := by
  rw [Expr.eval]
  exact bind_pure _

theorem execBlock_append (first rest : List Stmt) :
    execBlock calls fuel (first ++ rest) = (do
      match ← execBlock calls fuel first with
      | .normal => execBlock calls fuel rest
      | ending => return ending) := by
  induction first with
  | nil => rw [List.nil_append, execBlock, pure_bind]
  | cons st first ih =>
      rw [List.cons_append, execBlock, execBlock, bind_assoc, ih]
      congr 1
      funext ending
      cases ending <;> simp only [pure_bind]

theorem execBlock_single (st : Stmt) :
    execBlock calls fuel [st] = st.exec calls fuel := by
  rw [execBlock, ← bind_pure (st.exec calls fuel)]
  congr 1
  · exact bind_pure _
  · funext ending
    cases ending with
    | normal => rw [execBlock]
    | leave | next | ret v => rfl

end

/-- Runs a body on arguments. -/
def Stmt.run (calls : Calls) (fuel : Nat) (body : Stmt) (args : List Value) : Eval String Value :=
  fun output =>
    (body.exec calls fuel (.ofArgs args output)).map fun (r, s) => (r.map Ending.answer, s.output)

/-- Calls a method while `depth` calls are active. Every call takes fuel from the calls and loops
in its body. -/
def invoke (bodies : Handle → Option Stmt) (limit : Nat) : Nat → Nat → Calls
  | 0, _, _, _ => Eval.exhausted
  | fuel + 1, depth, h, args =>
      if limit ≤ depth then Eval.fail (.failed .stackExhausted)
      else
        match bodies h with
        | none => Eval.exhausted
        | some body => body.run (invoke bodies limit fuel (depth + 1)) fuel args

end Scriptlet.Core
