import Scriptlet.Proofs.Meaning.Agreement.Stmt
import Scriptlet.Proofs.Typing.WellTyped.Method

namespace Scriptlet

/-!
# Agreement of programs

Calling a method of an accepted program does the same as calling its core method.
-/

open Code (Handle)
open Scriptlet.Tree (Memory)
open Scriptlet.Core (Store)

theorem Agree.map_eq {α β : Type} {R : α → Memory → Store → Prop}
    {x : Option (Except Machine.Fault α × Memory)} {y : Option (Except Machine.Fault α × Store)}
    (h : Agree R x y) (hR : ∀ a m s, R a m s → m.output = s.output) (f : α → β) :
    x.map (fun (r, m) => (r.map f, m.output)) = y.map fun (r, s) => (r.map f, s.output) := by
  rcases x with _ | ⟨e | a, m⟩ <;> rcases y with _ | ⟨e' | b, s⟩
  · rfl
  · exact h.elim
  · exact h.elim
  · exact h.elim
  · obtain ⟨rfl, houtput⟩ := h
    simp only [Option.map_some, houtput]
  · exact h.elim
  · exact h.elim
  · exact h.elim
  · obtain ⟨rfl, hrelated⟩ := h
    simp only [Option.map_some, hR a m s hrelated]

namespace Typing

theorem Behind.output {around behind : Look} {ending : Ending} {m : Memory} {s : Store}
    (h : Behind around behind ending m s) : m.output = s.output := by
  cases ending with
  | normal => exact Mirrors.output h
  | leave | next | ret v => exact Mirrors.output h

theorem lookup_zip_of_nodup {α : Type} {names : List String} (hnodup : names.Nodup) {i : Nat}
    {name : String} (hi : names[i]? = some name) (xs : List α) :
    (names.zip xs).lookup name = xs[i]? := by
  induction names generalizing i xs with
  | nil => cases hi
  | cons first names ih =>
      rw [List.nodup_cons] at hnodup
      cases xs with
      | nil => rfl
      | cons x xs =>
          rw [List.zip_cons_cons, List.lookup_cons]
          cases i with
          | zero =>
              obtain rfl := Option.some.inj hi
              rw [beq_self_eq_true]
              rfl
          | succ i =>
              have hmem : name ∈ names := List.mem_of_getElem? hi
              have hname : name ≠ first := fun heq => hnodup.1 (heq ▸ hmem)
              rw [beq_eq_false_iff_ne.2 hname]
              exact ih hnodup.2 hi xs

/-- The arguments are in the parameters and in their slots. -/
theorem Parameters.mirrors {names : List String} {types : List DataType} {v : Variables}
    (h : Parameters .start (names.zip types) v) (hcount : types.length ≤ 65535)
    (hnodup : names.Nodup) (args : List Value) (output : String) :
    Mirrors v.look (.ofArgs names args output) (.ofArgs args output) where
  vars name l hl := by
    obtain ⟨hname, -⟩ := h.place hcount (Variables.mem_entries_of_look hl)
    have hlookup := lookup_zip_of_nodup hnodup hname args
    change ((names.zip args).lookup name).getD .null = args.getD l.slot.toNat .null
    rw [hlookup, List.getD_eq_getElem?_getD]
  output := rfl

/-- The body of an accepted method means what its core body does. -/
theorem MethodElaborates.run? {ctx : Context} {m : Tree.Method} {core : Core.Method}
    (h : MethodElaborates ctx m core) (hs : SignatureOf m ctx.method) (hroomy : Roomy core)
    (calls : Calls) (fuel : Nat) (args : List Value) :
    m.run? ctx calls fuel args = some (core.body.run calls fuel args) := by
  cases h with
  | @mk v body u hparams hbody _ =>
      have hv := hparams.orderly_params hroomy.params
      have htypes : v.look.types = Tree.paramTypes ctx.method :=
        funext fun name => hparams.look_types name
      obtain ⟨run, hrun, hruns⟩ := StmtElaborates.meaning? calls fuel _ hbody hv hroomy.spared
      rw [Tree.Stmt.meaning?, htypes] at hrun
      obtain ⟨⟨outer, run'⟩, hblock, heq⟩ := Option.bind_eq_some_iff.1 hrun
      obtain ⟨-, rfl⟩ := Prod.mk.inj (Option.some.inj heq)
      rw [Tree.Method.run?, hblock]
      refine congrArg some (funext fun output => ?_)
      have hmirrors := hparams.mirrors hroomy.params hs.distinct args output
      exact (hruns _ _ hmirrors).map_eq (fun _ _ _ h => h.output) Ending.answer

section

variable {s : Tree.Source} {classes : List Core.Class} (hchecked : Checked s classes)
  (hroomy : ∀ h core, Core.method? classes h = some core → Roomy core)

include hchecked hroomy

theorem Checked.meaningful : s.Meaningful := by
  intro h ctx m hm calls fuel args
  cases hchecked.accepted h with
  | missing hnone _ =>
      rw [hm] at hnone
      cases hnone
  | present hm' hcore hs helaborates =>
      cases hm.symm.trans hm'
      rw [helaborates.run? hs (hroomy h _ hcore) calls fuel args]
      rfl

/-- Calling methods by the tree and by the core program is the same. -/
theorem Checked.invoke_eq (limit fuel : Nat) :
    ∀ depth, s.invoke limit fuel depth = Core.invoke (Core.body? classes) limit fuel depth := by
  induction fuel with
  | zero => exact fun depth => rfl
  | succ fuel ih =>
      intro depth
      funext h args
      rw [Tree.Source.invoke, Core.invoke, ih]
      by_cases hlimit : limit ≤ depth
      · rw [if_pos hlimit, if_pos hlimit]
      rw [if_neg hlimit, if_neg hlimit]
      cases hchecked.accepted h with
      | missing hnone hnone' =>
          simp only [hnone, Core.body?, hnone', Option.map_none]
      | present hm hcore hs helaborates =>
          have hrun := helaborates.run? hs (hroomy h _ hcore)
          simp only [hm, Core.body?, hcore, Option.map_some, hrun, Option.getD_some]

end

end Typing

end Scriptlet
