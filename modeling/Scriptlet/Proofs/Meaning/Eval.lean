import Scriptlet.Code.Module
import Scriptlet.Machine.Run
import Scriptlet.Typing.Combiner
import Scriptlet.Typing.Conversion

namespace Scriptlet

/-!
# Evaluation

Computations that read and write a state and can fail. Loops and calls take fuel, and a computation
whose fuel is used up has no result. Expressions and statements are given their meaning in terms of
the machine's operations on values.
-/

open Code (Handle Routine)
open Machine (Fault)

/-- A computation on a state. A failure keeps the state in which it happened. -/
def Eval (σ α : Type) : Type :=
  σ → Option (Except Fault α × σ)

namespace Eval

variable {σ τ α β : Type}

instance : Monad (Eval σ) where
  pure a := fun s => some (.ok a, s)
  bind x f := fun s =>
    match x s with
    | some (.ok a, t) => f a t
    | some (.error e, t) => some (.error e, t)
    | none => none

/-- The fuel is used up. -/
def exhausted : Eval σ α :=
  fun _ => none

def ofExcept (r : Except Fault α) : Eval σ α :=
  fun s => some (r, s)

def fail (f : Fault) : Eval σ α :=
  ofExcept (.error f)

def gets (f : σ → α) : Eval σ α :=
  fun s => some (.ok (f s), s)

def update (f : σ → σ) : Eval σ Unit :=
  fun s => some (.ok (), f s)

/-- A computation on a part of the state. -/
def onPart (get : σ → τ) (put : σ → τ → σ) (x : Eval τ α) : Eval σ α :=
  fun s => (x (get s)).map fun (r, t) => (r, put s t)

theorem bind_apply (x : Eval σ α) (f : α → Eval σ β) (s : σ) :
    (x >>= f) s =
      match x s with
      | some (.ok a, t) => f a t
      | some (.error e, t) => some (.error e, t)
      | none => none := rfl

theorem gets_apply (f : σ → α) (s : σ) : gets f s = some (.ok (f s), s) := rfl

theorem onPart_apply (get : σ → τ) (put : σ → τ → σ) (x : Eval τ α) (s : σ) :
    onPart get put x s = (x (get s)).map fun (r, t) => (r, put s t) := rfl

instance : LawfulMonad (Eval σ) :=
  LawfulMonad.mk' (Eval σ)
    (fun x => by
      funext s
      change (x >>= fun a => pure (id a)) s = x s
      rw [bind_apply]
      rcases x s with _ | ⟨_ | _, _⟩ <;> rfl)
    (fun _ _ => rfl)
    (fun x f g => by
      funext s
      simp only [bind_apply]
      rcases x s with _ | ⟨_ | _, _⟩ <;> rfl)

end Eval

/-- How a statement ends: at its end, by leaving the loop around it or going on with the loop's next
round, or by returning from the method. -/
inductive Ending where
  | normal
  | leave
  | next
  | ret (v : Value)

/-- What a method answers when its body has ended. -/
def Ending.answer : Ending → Value
  | .ret v => v
  | _ => .void

namespace Eval

variable {σ : Type}

/-- A loop that tests before each round and takes a step after it. -/
def loop (test : Eval σ Bool) (body : Eval σ Ending) (advance : Eval σ Unit) : Nat → Eval σ Ending
  | 0 => exhausted
  | fuel + 1 => do
      if ← test then
        match ← body with
        | .leave => return .normal
        | .ret v => return .ret v
        | .normal | .next => do
            advance
            loop test body advance fuel
      else return .normal

/-- A loop that tests after each round. -/
def doLoop (body : Eval σ Ending) (test : Eval σ Bool) : Nat → Eval σ Ending
  | 0 => exhausted
  | fuel + 1 => do
      match ← body with
      | .leave => return .normal
      | .ret v => return .ret v
      | .normal | .next => do
          if ← test then doLoop body test fuel else return .normal

end Eval

/-- What a conversion to a type does to a value. -/
def Conversion.apply (target : DataType) : Conversion → Value → Except Fault Value
  | numeric, v => Machine.cast v target
  | unbox, v => Machine.unbox v target
  | identity, v | reference, v => .ok v

def Combiner.apply : Combiner → Value → Value → Except Fault Value
  | concat, left, right => .ok (.string (left.text ++ right.text))
  | operator op, left, right => Machine.binary op left right

/-- The truth value of a condition. -/
def condition : Value → Except Fault Bool
  | .bool b => .ok b
  | v => .error (.defective (.branch v.runtimeName))

/-- A library routine, which can print. Without a value it has the void value. -/
def perform (r : Routine) (args : List Value) : Eval String Value :=
  fun output =>
    match Machine.call r args with
    | .ok (.value v) => some (.ok v, output)
    | .ok (.print text) => some (.ok .void, output ++ text)
    | .error f => some (.error f, output)

/-- What calling a method does: it takes arguments, can print, and has a value. -/
abbrev Calls :=
  Handle → List Value → Eval String Value

end Scriptlet
