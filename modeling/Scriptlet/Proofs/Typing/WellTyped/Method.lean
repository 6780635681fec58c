import Scriptlet.Proofs.Core.Invocation
import Scriptlet.Proofs.Core.Slots
import Scriptlet.Proofs.Typing.Acceptance.Source
import Scriptlet.Proofs.Typing.Confinement
import Scriptlet.Proofs.Typing.Reachability
import Scriptlet.Proofs.Typing.WellTyped.Stmt

namespace Scriptlet.Typing

/-!
# Elaborated methods

The code of an accepted method is laid out as its body tells, and the body makes sense with the
parameters in the first slots.
-/

open Scriptlet.Core (Closes Interface)

/-- A method whose slots do not run out. -/
structure Roomy (core : Core.Method) : Prop where
  params : core.signature.params.length ≤ 65535
  spared : Spared core.body.declared

namespace MethodElaborates

variable {ctx : Context} {m : Tree.Method} {core : Core.Method}

theorem signature_eq (h : MethodElaborates ctx m core) : core.signature = ctx.method := by
  cases h
  rfl

/-- The code of a method is that of its body, and behind it the method ends. -/
theorem laid (h : MethodElaborates ctx m core) (hsize : core.assemble.code.size < UInt32.size) :
    core.assemble.locals = core.draft.locals ∧ ∃ stop,
      (∀ leaving again, core.body.Laid core.assemble.code core.assemble.literals leaving again 0
        stop) ∧
      (∀ k i, core.assemble.code[k]? = some i → stop ≤ k → i = .retVoid) ∧
      stop ≤ core.assemble.code.size ∧ Closes core.assemble.code stop := by
  have hplaces : core.assemble.code.size ≤ Code.placeholder.toNat := by
    have hgreatest : Code.placeholder.toNat = UInt32.size - 1 := rfl
    omega
  cases h with
  | @mk v body u hparams hbody hends =>
      have hgrows := StmtElaborates.grows _ hbody
      have hcode : u.draft.code = #[] := hgrows.code.trans hparams.draft_empty.1
      have hliterals : u.draft.literals = #[] := hgrows.literals.trans hparams.draft_empty.2
      have hconfined := StmtElaborates.confined _ hbody
      obtain ⟨hlocals, stop, hlaid, hstop⟩ := Core.Method.laid hconfined hcode hliterals hplaces
      refine ⟨hlocals, stop, hlaid, ?_⟩
      split at hstop
      · obtain ⟨hret, hstop⟩ := hstop
        refine ⟨fun k i hi hk => ?_, by omega, .inr hret⟩
        obtain ⟨hlt, -⟩ := Array.getElem?_eq_some_iff.1 hi
        have hk' : k = stop := by omega
        rw [hk', hret] at hi
        exact (Option.some.inj hi).symm
      · refine ⟨fun k i hi hk => ?_, by omega, .inl ?_⟩
        · obtain ⟨hlt, -⟩ := Array.getElem?_eq_some_iff.1 hi
          omega
        · rw [← hstop]
          exact Array.getElem?_eq_none (Nat.le_refl _)

/-- The body makes sense, and its variables are the parameters in the first slots. -/
theorem hasType {sigs : Interface} (h : MethodElaborates ctx m core) (hctx : ctx.Agrees sigs)
    (hroomy : Roomy core) :
    ∃ vars outer, (∀ l ∈ vars, ctx.method.params[l.slot.toNat]? = some l.type) ∧
      core.body.HasType sigs ctx.method.result false vars outer := by
  cases h with
  | @mk v body u hparams hbody hends =>
      have hv := hparams.orderly_params hroomy.params
      refine ⟨v.locals, u.locals, fun l hl => ?_,
        StmtElaborates.hasType hctx _ hbody hv hroomy.spared⟩
      obtain ⟨e, he, rfl⟩ := List.mem_map.1 hl
      exact (hparams.place hroomy.params he).2

/-- The end of the body of a method with a result is out of reach. -/
theorem not_normal (h : MethodElaborates ctx m core) (hresult : ctx.method.result ≠ .void)
    (calls : Calls) (fuel : Nat) (s t : Core.Store) :
    core.body.exec calls fuel s ≠ some (.ok .normal, t) := by
  cases h with
  | mk _ hbody hends =>
      intro hnormal
      have hreach := StmtElaborates.returns calls fuel _ hbody s _ t hnormal
      exact hresult (hends hreach)

end MethodElaborates

end Scriptlet.Typing
