import Scriptlet.Code.Listing
import Scriptlet.Code.Module

namespace Scriptlet.Machine

/-!
# Programs

A program is a module that has been checked: every literal, slot, jump target and call of its code
refers to something that exists. The check reports the first fault in the order of the module.
-/

open Code (Instr Method Module Handle)

/-- What is wrong with a method. -/
inductive Flaw where
  | fewSlots (params slots : Nat)
  | operand (i : Instr) (position : Nat)
  deriving DecidableEq

def Flaw.text : Flaw → String
  | fewSlots params slots =>
      params.repr ++ " parameters but only " ++ slots.repr ++ " local slots"
  | operand i position => "operand out of range in " ++ i.listing ++ " at " ++ position.repr

/-- Why a module is no program. -/
inductive ModuleError where
  | tooLarge (count : Nat)
  | invalid (cls method : String) (flaw : Flaw)
  deriving DecidableEq

def ModuleError.message : ModuleError → String
  | tooLarge count => "module has too many classes or methods (" ++ count.repr ++ ")"
  | invalid cls method flaw =>
      "invalid method '" ++ cls ++ "." ++ method ++ "': " ++ flaw.text

/-- Whether the operand of an instruction refers to something that exists. -/
def inRange (m : Module) (method : Method) : Instr → Bool
  | .const n => n.toNat < method.literals.size
  | .load n | .store n => n < method.locals
  | .jump n | .jumpIfFalse n | .jumpIfTrue n => n.toNat ≤ method.code.size
  | .call c k => (m.method? ⟨c, k⟩).isSome
  | _ => true

def flaw? (m : Module) (method : Method) : Option Flaw :=
  if method.locals.toNat < method.params.length then
    some (.fewSlots method.params.length method.locals.toNat)
  else
    method.code.toList.zipIdx.findSome? fun (i, position) =>
      if inRange m method i then none else some (.operand i position)

/-- Counts above this cannot be expressed in a handle. -/
def countLimit : Nat := 65535

def classError? (m : Module) (c : Code.Class) : Option ModuleError :=
  if countLimit < c.methods.size then some (.tooLarge c.methods.size)
  else
    c.methods.toList.findSome? fun method =>
      (flaw? m method).map (.invalid c.name method.name)

def moduleError? (m : Module) : Option ModuleError :=
  if countLimit < m.classes.size then some (.tooLarge m.classes.size)
  else m.classes.toList.findSome? (classError? m)

structure Program where
  module : Module
  checked : moduleError? module = none

def Program.ofModule (m : Module) : Except ModuleError Program :=
  match h : moduleError? m with
  | some e => .error e
  | none => .ok ⟨m, h⟩

/-- Why a class has no entry point. -/
inductive EntryError where
  | missingClass (name : String)
  | noPublicMethod (name : String)
  deriving DecidableEq

def EntryError.message : EntryError → String
  | missingClass name => "type '" ++ name ++ "' not found in module"
  | noPublicMethod name => "type '" ++ name ++ "' declares no public method"

namespace Program

def class? (p : Program) (name : String) : Option Code.Class :=
  p.module.classes.find? (·.name == name)

/-- The first public method of the first class of a name. -/
def entry (p : Program) (name : String) : Except EntryError Handle :=
  match p.module.classes.findIdx? (·.name == name) with
  | none => .error (.missingClass name)
  | some c =>
      match (p.class? name).bind fun cls => cls.methods.findIdx? (·.isPublic) with
      | none => .error (.noPublicMethod name)
      | some k => .ok ⟨UInt16.ofNat c, UInt16.ofNat k⟩

def method? (p : Program) (h : Handle) : Option Method :=
  p.module.method? h

end Program

end Scriptlet.Machine
