import Scriptlet.Proofs.Core.Range
import Scriptlet.Proofs.Linking
import Scriptlet.Proofs.Typing.Reservation

namespace Scriptlet

/-!
# Compiled programs load

As long as places, slots and handles are operands, everything in the code of a compiled program
refers to something that exists.
-/

open Code (Handle Module Method Instr)
open Machine (Program countLimit flaw? inRange)
open Typing

/-- A method with few enough names has a slot for each, and its slots do not run out. -/
theorem Typing.MethodElaborates.reserves {ctx : Context} {m : Tree.Method} {core : Core.Method}
    (h : MethodElaborates ctx m core) (hs : SignatureOf m ctx.method)
    (hcount : m.names.length ≤ 65535) :
    core.draft.locals.toNat = m.names.length ∧ Roomy core ∧
      ∀ slot ∈ core.body.declared, slot < core.draft.locals := by
  rw [Tree.Method.names, List.length_append, List.length_map] at hcount ⊢
  cases h with
  | @mk v body u hparams hbody _ =>
      have hzip : (ctx.method.paramNames.zip ctx.method.params).length = m.params.length := by
        rw [List.length_zip, hs.paramNames, hs.length, List.length_map, Nat.min_self]
      have htypes : ctx.method.params.length ≤ 65535 := by
        have hlength := hs.length
        omega
      have hv : v.draft.locals.toNat = m.params.length := by
        rw [hparams.locals_toNat (Variables.count_start htypes), hzip]
        exact Nat.zero_add _
      have hfits : v.draft.locals.toNat + (Tree.blockNames m.body.body).length ≤ 65535 := by
        omega
      have hreserves := StmtElaborates.reserves _ hbody hfits
      have hlocals : u.draft.locals.toNat =
          v.draft.locals.toNat + (Tree.blockNames m.body.body).length := hreserves.locals
      exact ⟨hlocals.trans (by rw [hv]), ⟨htypes, hreserves.spared⟩, hreserves.below⟩

section

variable {s : Tree.Source} {classes : List Core.Class} {name : String}

/-- The code of an accepted method is in range. -/
theorem flaw?_assemble (hchecked : Checked s classes)
    (hnumbered : Numbered (Core.assemble name classes)) {place : Handle} {ctx : Context}
    {m : Tree.Method} {core : Core.Method} (hm : s.method? place = some (ctx, m))
    (hs : SignatureOf m ctx.method) (helaborates : MethodElaborates ctx m core)
    (hcount : m.names.length ≤ 65535) (hshort : core.assemble.code.size < UInt32.size) :
    flaw? (Core.assemble name classes) core.assemble = none := by
  obtain ⟨hnames, hroomy, hdeclared⟩ := helaborates.reserves hs hcount
  obtain ⟨hlocals, stop, hlaid, hend, hstop, -⟩ := helaborates.laid hshort
  obtain ⟨vars, outer, hvars, htype⟩ :=
    helaborates.hasType (hchecked.agrees hnumbered hm) hroomy
  have hparams : ctx.method.params.length ≤ core.assemble.locals.toNat := by
    rw [hlocals, hnames, hs.length, Tree.Method.names, List.length_append, List.length_map]
    exact Nat.le_add_right _ _
  have hcalls : ∀ h sig, s.interface h = some sig →
      ((Core.assemble name classes).method? h).isSome = true := by
    intro h sig hsig
    cases hchecked.accepted h with
    | missing hnone _ =>
        rw [Tree.Source.interface, hnone] at hsig
        cases hsig
    | present _ hcore _ _ =>
        rw [method?_assemble, hcore]
        rfl
  have hslots : ∀ l ∈ vars, l.slot < core.assemble.locals := by
    intro l hl
    obtain ⟨hlt, -⟩ := List.getElem?_eq_some_iff.1 (hvars l hl)
    exact UInt16.lt_iff_toNat_lt.2 (Nat.lt_of_lt_of_le hlt hparams)
  have hdeclared' : ∀ slot ∈ core.body.declared, slot < core.assemble.locals := by
    rw [hlocals]
    exact hdeclared
  obtain ⟨hcovered, -⟩ := Core.Stmt.covered hcalls _ htype (hlaid 0 0) hslots hdeclared'
    (Nat.zero_le _) (Nat.zero_le _) (Nat.zero_le _)
  refine (Machine.flaw?_eq_none_iff _ _).2 ⟨?_, fun i hi => ?_⟩
  · have hsignature : core.assemble.params = ctx.method.params := by
      rw [← helaborates.signature_eq]
      rfl
    rw [hsignature]
    exact hparams
  · obtain ⟨k, hk⟩ := Array.getElem?_of_mem hi
    by_cases hlt : k < stop
    · exact hcovered.inRange k i (Nat.zero_le _) hlt hk
    · rw [hend k i hk (Nat.le_of_not_lt hlt)]
      rfl

/-- An assembled module with few enough classes, methods, names and instructions loads. -/
theorem moduleError?_assemble (hchecked : Checked s classes)
    (hnumbered : Numbered (Core.assemble name classes))
    (hnames : ∀ c ∈ s.classes, ∀ m ∈ c.methods, m.names.length ≤ 65535)
    (hshort : ∀ c ∈ (Core.assemble name classes).classes, ∀ f ∈ c.methods,
      f.code.size < UInt32.size) :
    Machine.moduleError? (Core.assemble name classes) = none := by
  refine (Machine.moduleError?_eq_none_iff _).2 ⟨hnumbered.classes, fun c hc => ?_⟩
  refine (Machine.classError?_eq_none_iff _ _).2 ⟨hnumbered.methods c hc, fun f hf => ?_⟩
  obtain ⟨k, hk⟩ := Array.getElem?_of_mem hc
  obtain ⟨i, hi⟩ := Array.getElem?_of_mem hf
  obtain ⟨hlt, -⟩ := Array.getElem?_eq_some_iff.1 hk
  obtain ⟨hlt', -⟩ := Array.getElem?_eq_some_iff.1 hi
  obtain ⟨hcls, hmethod⟩ := toNat_ofPlace (Nat.lt_of_lt_of_le hlt hnumbered.classes)
    (Nat.lt_of_lt_of_le hlt' (hnumbered.methods c hc))
  have hplace : (Core.assemble name classes).method? (.ofPlace k i) = some f := by
    rw [Module.method?, hcls, hmethod, hk]
    exact hi
  rw [method?_assemble] at hplace
  obtain ⟨core, hcore, rfl⟩ := Option.map_eq_some_iff.1 hplace
  cases hchecked.accepted (.ofPlace k i) with
  | missing _ hnone =>
      rw [hcore] at hnone
      cases hnone
  | @present ctx m core' hm hcore' hs helaborates =>
      obtain rfl := Option.some.inj (hcore.symm.trans hcore')
      have hcount : m.names.length ≤ 65535 := by
        simp only [Tree.Source.method?, Option.bind_eq_bind, Option.bind_eq_some_iff] at hm
        obtain ⟨c', hc', cls, -, m', hm', sig, -, heq⟩ := hm
        cases heq
        exact hnames c' (List.mem_of_getElem? hc') m (List.mem_of_getElem? hm')
      exact flaw?_assemble hchecked hnumbered hm hs helaborates hcount (hshort c hc _ hf)

end

/-- What compiles also loads. Its methods have slots for their parameters, and every operand in their
code refers to something that exists; in particular no jump is left without a target. -/
theorem exists_program_of_compile {text : List Char} {name : String} {m : Module}
    (hcompile : compile text name = .ok m) (hclasses : m.classes.size ≤ 65535)
    (hmethods : ∀ c ∈ m.classes, c.methods.size ≤ 65535)
    (hnames : ∀ c ∈ (parseText text).source.classes, ∀ t ∈ c.methods, t.names.length ≤ 65535)
    (hshort : ∀ c ∈ m.classes, ∀ f ∈ c.methods, f.code.size < UInt32.size - 1) :
    (∃ p, Program.ofModule m = .ok p) ∧
      ∀ c ∈ m.classes, ∀ f ∈ c.methods, f.params.length ≤ f.locals.toNat ∧
        ∀ i ∈ f.code, inRange m f i = true ∧ ∀ target ∈ [Instr.jump, .jumpIfFalse, .jumpIfTrue],
          i ≠ target Code.placeholder := by
  obtain ⟨classes, hchecked, rfl⟩ := exists_checked_of_compile hcompile
  have hshort' : ∀ c ∈ (Core.assemble name classes).classes, ∀ f ∈ c.methods,
      f.code.size < UInt32.size := fun c hc f hf => by
    have hsize := hshort c hc f hf
    omega
  have hnone := moduleError?_assemble hchecked ⟨hclasses, hmethods⟩ hnames hshort'
  refine ⟨⟨_, Program.ofModule_eq_ok hnone⟩, fun c hc f hf => ?_⟩
  have hclass := ((Machine.moduleError?_eq_none_iff _).1 hnone).2 c hc
  have hflaw := ((Machine.classError?_eq_none_iff _ _).1 hclass).2 f hf
  obtain ⟨hparams, hrange⟩ := (Machine.flaw?_eq_none_iff _ _).1 hflaw
  refine ⟨hparams, fun i hi => ⟨hrange i hi, fun target htarget heq => ?_⟩⟩
  have hi' := hrange i hi
  have hsize := hshort c hc f hf
  have hgreatest : Code.placeholder.toNat = UInt32.size - 1 := rfl
  have hle : Code.placeholder.toNat ≤ f.code.size := by
    simp only [List.mem_cons, List.not_mem_nil, or_false] at htarget
    rw [heq] at hi'
    rcases htarget with rfl | rfl | rfl
    · exact of_decide_eq_true hi'
    · exact of_decide_eq_true hi'
    · exact of_decide_eq_true hi'
  omega

/-- A method with a loop. -/
def sumText : List Char :=
  "class C \x7b int Sum(int n) \x7b int s = 0; while (n > 0) s += n--; return s; \x7d \x7d".toList

def sumModule : Module :=
  ⟨"sums", #[⟨"C", #[⟨"Sum", false, false, [.int], ["n"], .int, 2, #[.int 0, .int 1],
    #[.const 0, .store 1, .load 0, .const 0, .binary .gt, .jumpIfFalse 17, .load 1, .load 0, .dup,
      .const 1, .binary .sub, .store 0, .binary .add, .dup, .store 1, .pop, .jump 2, .load 1,
      .ret]⟩]⟩]⟩

theorem compile_sumText : compile sumText "sums" = .ok sumModule := by
  decide +kernel

theorem exists_program_sumText :
    compile sumText "sums" = .ok sumModule ∧ ∃ p, Program.ofModule sumModule = .ok p := by
  have hnames : ∀ c ∈ (parseText sumText).source.classes, ∀ t ∈ c.methods,
      t.names.length ≤ 65535 := by
    decide +kernel
  have hloads := exists_program_of_compile compile_sumText (by decide) (by decide) hnames (by decide)
  exact ⟨compile_sumText, hloads.1⟩

end Scriptlet
