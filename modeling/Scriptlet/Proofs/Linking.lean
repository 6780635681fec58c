import Scriptlet.Compiler
import Scriptlet.Proofs.Machine.Loading
import Scriptlet.Proofs.Typing.WellTyped.Method

namespace Scriptlet

/-!
# Linking

A compiled program holds the code of the methods of its tree, each in its place, and a call in one of
them names the method that the tree means.
-/

open Code (Handle)
open Machine (Program countLimit)
open Typing

/-- The signature of the method of a handle. -/
def Tree.Source.interface (s : Tree.Source) (h : Handle) : Option MethodSignature :=
  (s.method? h).map (·.1.method)

/-- A module whose places of classes and methods are operands. -/
structure Numbered (m : Code.Module) : Prop where
  classes : m.classes.size ≤ countLimit
  methods : ∀ c ∈ m.classes, c.methods.size ≤ countLimit

theorem Machine.Program.numbered (p : Program) : Numbered p.module := by
  obtain ⟨hsize, hclasses⟩ := (Machine.moduleError?_eq_none_iff _).1 p.checked
  refine ⟨hsize, fun c hc => ?_⟩
  exact ((Machine.classError?_eq_none_iff _ _).1 (hclasses c hc)).1

theorem method?_assemble (name : String) (classes : List Core.Class) (h : Handle) :
    (Core.assemble name classes).method? h =
      (Core.method? classes h).map Core.Method.assemble := by
  rw [Code.Module.method?, Core.method?, Core.assemble]
  simp only [List.getElem?_toArray, List.getElem?_map]
  cases classes[h.cls.toNat]? with
  | none => rfl
  | some c => simp [Core.Class.assemble]

/-- An accepted text is a program that has been checked, and its module is assembled. -/
theorem exists_checked_of_compile {text : List Char} {name : String} {m : Code.Module}
    (h : compile text name = .ok m) :
    ∃ classes, Checked (parseText text).source classes ∧ m = Core.assemble name classes := by
  unfold compile at h
  dsimp only at h
  split at h
  · cases h
  · unfold compileSource at h
    dsimp only at h
    rw [Report.hasErrors_map] at h
    split at h
    · cases h
    · next hreports =>
        refine ⟨(checkSource (parseText text).source).value, checked_of_checkSource ?_,
          (Except.ok.inj h).symm⟩
        have hnil : (checkSource (parseText text).source).reports = [] := by
          simpa using hreports
        rw [← hnil]

section

variable {s : Tree.Source} {classes : List Core.Class} {name : String}

theorem toNat_ofPlace {k i : Nat} (hk : k < countLimit) (hi : i < countLimit) :
    (Handle.ofPlace k i).cls.toNat = k ∧ (Handle.ofPlace k i).method.toNat = i := by
  have hlimit : countLimit = 65535 := rfl
  have hsize : UInt16.size = 65536 := rfl
  rw [hlimit] at hk hi
  rw [Handle.ofPlace, Nat.min_eq_left (Nat.le_of_lt hk), Nat.min_eq_left (Nat.le_of_lt hi)]
  exact ⟨UInt16.toNat_ofNat_of_lt' (by omega), UInt16.toNat_ofNat_of_lt' (by omega)⟩

/-- The handle of a method that is called by its name has the signature of the method. -/
theorem Typing.Checked.interface_ofPlace (h : Checked s classes)
    (hnumbered : Numbered (Core.assemble name classes)) {k i : Nat} {c : ClassSignature}
    {sig : MethodSignature} {method : String} (hc : s.signatures.classes[k]? = some c)
    (hm : c.method? method = some (i, sig)) : s.interface (.ofPlace k i) = some sig := by
  have hsig : c.methods[i]? = some sig := by
    unfold ClassSignature.method? at hm
    split at hm
    · obtain ⟨sig', hsig, heq⟩ := Option.map_eq_some_iff.1 hm
      cases heq
      exact hsig
    · cases hm
  rcases h k with ⟨-, hnone, -⟩ | ⟨tree, c', core, htree, hc', hcore, hclass⟩
  · rw [hc] at hnone
    cases hnone
  obtain rfl := Option.some.inj (hc.symm.trans hc')
  rcases hclass i with ⟨-, hnone, -⟩ | ⟨m, sig', method, hm, hsig', hmethod, -⟩
  · rw [hsig] at hnone
    cases hnone
  obtain rfl := Option.some.inj (hsig.symm.trans hsig')
  have hassembled : (Core.assemble name classes).classes[k]? = some core.assemble := by
    simp [Core.assemble, hcore]
  have hk : k < countLimit := by
    obtain ⟨hlt, -⟩ := Array.getElem?_eq_some_iff.1 hassembled
    exact Nat.lt_of_lt_of_le hlt hnumbered.classes
  have hi : i < countLimit := by
    have hsize := hnumbered.methods _ (Array.mem_of_getElem? hassembled)
    have hlt : i < core.assemble.methods.size := by
      obtain ⟨hlt, -⟩ := List.getElem?_eq_some_iff.1 hmethod
      simpa [Core.Class.assemble] using hlt
    exact Nat.lt_of_lt_of_le hlt hsize
  obtain ⟨hcls, hplace⟩ := toNat_ofPlace hk hi
  simp [Tree.Source.interface, Tree.Source.method?, hcls, hplace, htree, hc, hm, hsig]

theorem Typing.Checked.valued (h : Checked s classes) {place : Handle} {sig : MethodSignature}
    (hsig : s.interface place = some sig) : .void ∉ sig.params := by
  cases h.accepted place with
  | missing hnone _ =>
      rw [Tree.Source.interface, hnone] at hsig
      cases hsig
  | present hm _ hof _ =>
      rw [Tree.Source.interface, hm] at hsig
      obtain rfl := Option.some.inj hsig
      exact hof.valued

/-- The body of a method knows the methods that it can call. -/
theorem Typing.Checked.agrees (h : Checked s classes)
    (hnumbered : Numbered (Core.assemble name classes)) {place : Handle} {ctx : Context}
    {m : Tree.Method} (hm : s.method? place = some (ctx, m)) : ctx.Agrees s.interface := by
  have hctx : ctx.signatures = s.signatures ∧
      s.signatures.classes[ctx.clsIndex]? = some ctx.cls := by
    simp only [Tree.Source.method?, Option.bind_eq_bind, Option.bind_eq_some_iff] at hm
    obtain ⟨c, -, cls, hcls, m', -, sig, -, heq⟩ := hm
    cases heq
    exact ⟨rfl, hcls⟩
  obtain ⟨hsignatures, hown⟩ := hctx
  refine ⟨?_, fun k c name i sig hc hsig => ?_, fun place sig hsig => h.valued hsig⟩
  · rw [hsignatures]
    exact hown
  · rw [hsignatures] at hc
    exact h.interface_ofPlace hnumbered hc hsig

/-- A program with the code of a tree. -/
structure Linked (s : Tree.Source) (classes : List Core.Class) (p : Program) : Prop where
  checked : Checked s classes
  assembled : ∃ name, p.module = Core.assemble name classes
  short : ∀ h f, p.method? h = some f → f.code.size < UInt32.size

namespace Linked

variable {p : Program} (hlinked : Linked s classes p)

include hlinked

theorem numbered : ∃ name, Numbered (Core.assemble name classes) := by
  obtain ⟨name, hname⟩ := hlinked.assembled
  exact ⟨name, hname ▸ p.numbered⟩

theorem method? (h : Handle) : p.method? h = (Core.method? classes h).map Core.Method.assemble := by
  obtain ⟨name, hname⟩ := hlinked.assembled
  rw [Program.method?, hname, method?_assemble]

theorem agrees {h : Handle} {ctx : Context} {m : Tree.Method} (hm : s.method? h = some (ctx, m)) :
    ctx.Agrees s.interface := by
  obtain ⟨name, hnumbered⟩ := hlinked.numbered
  exact hlinked.checked.agrees hnumbered hm

/-- A store into the greatest slot would be out of range, so the slots of a program have not run
out. -/
theorem roomy {h : Handle} {core : Core.Method} (hcore : Core.method? classes h = some core) :
    Roomy core := by
  have hf : p.method? h = some core.assemble := by rw [hlinked.method?, hcore]; rfl
  cases hlinked.checked.accepted h with
  | missing _ hnone =>
      rw [hcore] at hnone
      cases hnone
  | present hm hcore' hof helaborates =>
      obtain rfl := Option.some.inj (hcore.symm.trans hcore')
      obtain ⟨-, stop, hlaid, -⟩ := helaborates.laid (hlinked.short h _ hf)
      have hparams : core.signature.params.length ≤ core.assemble.locals.toNat :=
        Program.params_le_locals hf
      have htop := core.assemble.locals.toNat_lt
      refine ⟨by omega, fun slot hslot => ?_⟩
      obtain ⟨k, hk⟩ := Core.Stmt.Laid.declared _ (hlaid 0 0) hslot
      have hrange : slot < core.assemble.locals :=
        of_decide_eq_true (Program.inRange_method hf hk)
      rw [UInt16.lt_iff_toNat_lt] at hrange
      exact ne_top_of_toNat_lt (by omega)

theorem holding : Core.Holding p s.interface (Core.body? classes) := by
  refine ⟨fun h sig hsig => ?_⟩
  cases hlinked.checked.accepted h with
  | missing hnone _ =>
      rw [Tree.Source.interface, hnone] at hsig
      cases hsig
  | @present ctx m core hm hcore hof helaborates =>
      rw [Tree.Source.interface, hm] at hsig
      obtain rfl := Option.some.inj hsig
      have hf : p.method? h = some core.assemble := by rw [hlinked.method?, hcore]; rfl
      obtain ⟨-, stop, hlaid, -, -, hcloses⟩ := helaborates.laid (hlinked.short h _ hf)
      have hparams : core.assemble.params = ctx.method.params := by
        rw [← helaborates.signature_eq]
        rfl
      have hbody : Core.body? classes h = some core.body := by rw [Core.body?, hcore]; rfl
      exact ⟨core.assemble, core.body, stop, hf, congrArg List.length hparams, hbody, hlaid,
        hcloses⟩

theorem bodiesSound : Core.BodiesSound s.interface (Core.body? classes) := by
  refine ⟨fun h body hbody => ?_⟩
  obtain ⟨core, hcore, rfl⟩ := Option.map_eq_some_iff.1 hbody
  cases hlinked.checked.accepted h with
  | missing _ hnone =>
      rw [hcore] at hnone
      cases hnone
  | @present ctx m core' hm hcore' hof helaborates =>
      obtain rfl := Option.some.inj (hcore.symm.trans hcore')
      obtain ⟨vars, outer, hvars, htype⟩ :=
        helaborates.hasType (hlinked.agrees hm) (hlinked.roomy hcore)
      have hsig : s.interface h = some ctx.method := by rw [Tree.Source.interface, hm]; rfl
      exact ⟨ctx.method, vars, outer, hsig, hof.valued, hvars, htype, helaborates.not_normal⟩

end Linked

end

end Scriptlet
