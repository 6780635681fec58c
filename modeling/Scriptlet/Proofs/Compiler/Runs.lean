import Scriptlet.Proofs.Compiler.Loads
import Scriptlet.Proofs.Machine.Binding
import Scriptlet.Proofs.Meaning.Agreement.Program

namespace Scriptlet

/-!
# Compiled programs run as they mean

A compiled program that loads never runs into a defect, its methods have values of their types, and
running a method does what its tree means. Places in the code are operands of jumps, so the code of
a method must not be longer than operands can tell.
-/

open Code (Handle Module Method)
open Machine (Program Safe bindArguments)
open Typing

section

variable {text : List Char} {name : String} {m : Module} {p : Program}

theorem exists_linked_of_compile (hcompile : compile text name = .ok m)
    (hload : Program.ofModule m = .ok p)
    (hshort : ∀ c ∈ m.classes, ∀ f ∈ c.methods, f.code.size < UInt32.size) :
    ∃ classes, Linked (parseText text).source classes p := by
  obtain ⟨classes, hchecked, hm⟩ := exists_checked_of_compile hcompile
  have hmodule := Program.module_of_ofModule hload
  refine ⟨classes, hchecked, ⟨name, hmodule.trans hm⟩, fun h f hf => ?_⟩
  rw [Program.method?, hmodule, Module.method?] at hf
  obtain ⟨c, hc, hf⟩ := Option.bind_eq_some_iff.1 hf
  exact hshort c (Array.mem_of_getElem? hc) f (Array.mem_of_getElem? hf)

variable {s : Tree.Source} {classes : List Core.Class}

/-- A method of a linked program has the signature of its tree. -/
theorem Linked.signature (hlinked : Linked s classes p) {h : Handle} {f : Method}
    (hf : p.method? h = some f) :
    ∃ sig, s.interface h = some sig ∧ f.params = sig.params ∧ f.result = sig.result := by
  rw [hlinked.method?] at hf
  obtain ⟨core, hcore, rfl⟩ := Option.map_eq_some_iff.1 hf
  cases hlinked.checked.accepted h with
  | missing _ hnone =>
      rw [hcore] at hnone
      cases hnone
  | @present ctx _ core' hm hcore' _ helaborates =>
      obtain rfl := Option.some.inj (hcore.symm.trans hcore')
      refine ⟨ctx.method, by rw [Tree.Source.interface, hm]; rfl, ?_, ?_⟩
      · rw [← helaborates.signature_eq]
        rfl
      · rw [← helaborates.signature_eq]
        rfl

/-- Calling a method of a linked program on bound arguments comes to the outcomes of its core
body. -/
theorem Linked.invoke_iff (hlinked : Linked s classes p) {h : Handle} {f : Method}
    (hf : p.method? h = some f) {args bound : List Value} (hbind : bindArguments f args = .ok bound)
    (limit : Nat) (o : Machine.Outcome) :
    (∃ n, Machine.invoke p limit n h bound = some o) ↔
      ∃ n, Core.invoke (Core.body? classes) limit n 0 h bound "" = some (o.result, o.output) := by
  obtain ⟨sig, hsig, hparams, -⟩ := hlinked.signature hf
  have hargs := Machine.conformAll_of_bindArguments hbind
  rw [hparams] at hargs
  exact Core.invoke_eq_some_iff hlinked.holding hlinked.bodiesSound hsig hargs o

/-- A compiled program that loads runs without defects, on all arguments that can be bound: a run
that ends has a value of the type of the method, or a failure that the program can account for. -/
theorem safe_invoke_of_compile (hcompile : compile text name = .ok m)
    (hload : Program.ofModule m = .ok p)
    (hshort : ∀ c ∈ m.classes, ∀ f ∈ c.methods, f.code.size < UInt32.size) {h : Handle} {f : Method}
    (hf : p.method? h = some f) {args bound : List Value} (hbind : bindArguments f args = .ok bound)
    {limit n : Nat} {o : Machine.Outcome} (hrun : Machine.invoke p limit n h bound = some o) :
    Safe (·.Conforms f.result) o.result := by
  obtain ⟨classes, hlinked⟩ := exists_linked_of_compile hcompile hload hshort
  obtain ⟨k, hk⟩ := (hlinked.invoke_iff hf hbind limit o).1 ⟨n, hrun⟩
  obtain ⟨sig, hsig, hparams, hresult⟩ := hlinked.signature hf
  have hargs := Machine.conformAll_of_bindArguments hbind
  rw [hparams] at hargs
  have hsound := Core.callsSound_invoke hlinked.bodiesSound limit k 0 h sig bound "" hsig hargs
  rw [hk] at hsound
  rw [hresult]
  cases hr : o.result with
  | ok v =>
      rw [hr] at hsound
      exact hsound
  | error e =>
      rw [hr] at hsound
      exact hsound

def sumProgram : Program :=
  ⟨sumModule, by decide⟩

theorem safe_invoke_sumText : ∃ o, Program.ofModule sumModule = .ok sumProgram ∧
    bindArguments sumModule.classes[0].methods[0] [.byte 3] = .ok [.int 3] ∧
      Machine.invoke sumProgram 10 61 ⟨0, 0⟩ [.int 3] = some o ∧ Safe (·.Conforms .int) o.result := by
  have hload : Program.ofModule sumModule = .ok sumProgram := Program.ofModule_eq_ok _
  have hbind : bindArguments sumModule.classes[0].methods[0] [.byte 3] = .ok [.int 3] := by
    decide
  have hends : (Machine.invoke sumProgram 10 61 ⟨0, 0⟩ [.int 3]).isSome = true := by
    decide +kernel
  obtain ⟨o, hrun⟩ := Option.isSome_iff_exists.1 hends
  have hsafe := safe_invoke_of_compile compile_sumText hload (by decide) rfl hbind hrun
  exact ⟨o, hload, hbind, hrun, hsafe⟩

/-- The tree of a compiled program has a meaning. Running a method of the program and evaluating its
tree come to the same: the same value or failure after printing the same, or no end. -/
theorem invoke_iff_of_compile (hcompile : compile text name = .ok m)
    (hload : Program.ofModule m = .ok p)
    (hshort : ∀ c ∈ m.classes, ∀ f ∈ c.methods, f.code.size < UInt32.size) {h : Handle} {f : Method}
    (hf : p.method? h = some f) {args bound : List Value} (hbind : bindArguments f args = .ok bound)
    (limit : Nat) :
    (parseText text).source.Meaningful ∧
    (∀ o : Machine.Outcome, (∃ n, Machine.invoke p limit n h bound = some o) ↔
      ∃ n, (parseText text).source.invoke limit n 0 h bound "" = some (o.result, o.output)) ∧
    ((∀ n, Machine.invoke p limit n h bound = none) ↔
      ∀ n, (parseText text).source.invoke limit n 0 h bound "" = none) := by
  obtain ⟨classes, hlinked⟩ := exists_linked_of_compile hcompile hload hshort
  have hroomy : ∀ h core, Core.method? classes h = some core → Roomy core :=
    fun _ _ hcore => hlinked.roomy hcore
  have hsame : ∀ o : Machine.Outcome, (∃ n, Machine.invoke p limit n h bound = some o) ↔
      ∃ n, (parseText text).source.invoke limit n 0 h bound "" = some (o.result, o.output) := by
    intro o
    simp only [hlinked.checked.invoke_eq hroomy]
    exact hlinked.invoke_iff hf hbind limit o
  refine ⟨hlinked.checked.meaningful hroomy, hsame, ?_, ?_⟩
  · intro hnone n
    cases hn : (parseText text).source.invoke limit n 0 h bound "" with
    | none => rfl
    | some r =>
        obtain ⟨k, hk⟩ := (hsame ⟨r.1, r.2⟩).2 ⟨n, hn⟩
        rw [hnone] at hk
        cases hk
  · intro hnone n
    cases hn : Machine.invoke p limit n h bound with
    | none => rfl
    | some o =>
        obtain ⟨k, hk⟩ := (hsame o).1 ⟨n, hn⟩
        rw [hnone] at hk
        cases hk

end

theorem invoke_iff_sumText : Program.ofModule sumModule = .ok sumProgram ∧
    (parseText sumText).source.invoke 10 20 0 ⟨0, 0⟩ [.int 3] "" = some (.ok (.int 6), "") ∧
      ∃ n, Machine.invoke sumProgram 10 n ⟨0, 0⟩ [.int 3] = some ⟨.ok (.int 6), ""⟩ := by
  have hload : Program.ofModule sumModule = .ok sumProgram := Program.ofModule_eq_ok _
  have hbind : bindArguments sumModule.classes[0].methods[0] [.byte 3] = .ok [.int 3] := by
    decide
  have hvalue : (parseText sumText).source.invoke 10 20 0 ⟨0, 0⟩ [.int 3] "" =
      some (.ok (.int 6), "") := by
    decide +kernel
  have hagree := invoke_iff_of_compile (h := ⟨0, 0⟩) compile_sumText hload (by decide) rfl hbind 10
  exact ⟨hload, hvalue, (hagree.2.1 ⟨.ok (.int 6), ""⟩).2 ⟨20, hvalue⟩⟩

end Scriptlet
