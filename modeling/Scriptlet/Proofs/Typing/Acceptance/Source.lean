import Scriptlet.Proofs.Meaning.Program
import Scriptlet.Proofs.Typing.Acceptance.Signature
import Scriptlet.Proofs.Typing.Acceptance.Stmt
import Scriptlet.Proofs.Typing.Parameters

namespace Scriptlet

/-!
# Accepted programs

In an accepted program every method of the tree has a core method in the same place, and nothing
else has one.
-/

open Code (Handle)

/-- The core method of a handle. -/
def Core.method? (classes : List Core.Class) (h : Handle) : Option Core.Method := do
  let c ← classes[h.cls.toNat]?
  c.methods[h.method.toNat]?

/-- The body of the core method of a handle. -/
def Core.body? (classes : List Core.Class) (h : Handle) : Option Core.Stmt :=
  (Core.method? classes h).map (·.body)

namespace Typing

open Reporting

/-- The core method of a method: its parameters are declared, and then its body is elaborated. -/
inductive MethodElaborates (ctx : Context) (m : Tree.Method) : Core.Method → Prop where
  | mk {v body u} :
      Parameters .start (ctx.method.paramNames.zip ctx.method.params) v →
      StmtElaborates ctx false v (.block m.body.body m.body.span) body u →
      ((Tree.reachBlock true m.body.body).ends = true → ctx.method.result = .void) →
      MethodElaborates ctx m ⟨ctx.method, u.draft, body, (Tree.reachBlock true m.body.body).ends⟩

theorem elaborates_of_checkMethod {ctx : Context} {m : Tree.Method} {core : Core.Method}
    (hs : SignatureOf m ctx.method) (h : checkMethod ctx m = ⟨core, []⟩) :
    MethodElaborates ctx m core := by
  obtain ⟨⟨⟨body, ends⟩, final⟩, hbody, h⟩ := bind_eq_quiet h
  obtain rfl := pure_eq_quiet h
  have hyields : Yields (checkBody m) ctx ⟨.empty, .empty⟩ (body, ends) final := hbody
  rw [checkBody] at hyields
  simp only [yields_bind, yields_read, yields_inScope] at hyields
  obtain ⟨_, _, ⟨hctx, rfl⟩, core, w, ⟨u, ⟨_, v, hparams, hstmt⟩, rfl⟩, h⟩ := hyields
  obtain rfl := hctx.symm
  have hlength : ctx.method.paramNames.length = ctx.method.params.length := by
    rw [hs.paramNames, hs.length, List.length_map]
  have hnames : ((ctx.method.paramNames.zip ctx.method.params).map Prod.fst).Nodup := by
    rw [List.map_fst_zip (Nat.le_of_eq hlength)]
    exact hs.distinct
  have hdeclared := parameters_of_declareParams hparams (List.cons_ne_nil _ _) (fun _ _ => rfl) hnames
  have helaborates := elaborates_of_checkStmt _ hstmt
  split at h
  · simp at h
  · next hopen =>
      obtain ⟨heq, rfl⟩ := (yields_pure _ _).1 h
      obtain ⟨rfl, rfl⟩ := Prod.mk.inj heq
      refine .mk (u := u) hdeclared helaborates fun hends => ?_
      by_contra hresult
      exact hopen (by simp [hends, hresult])

theorem getElem?_of_forall₂ {α β : Type} {R : α → β → Prop} {xs : List α} {ys : List β}
    (h : List.Forall₂ R xs ys) (i : Nat) : (xs[i]? = none ∧ ys[i]? = none) ∨
      ∃ x y, xs[i]? = some x ∧ ys[i]? = some y ∧ R x y := by
  induction h generalizing i with
  | nil => exact .inl ⟨rfl, rfl⟩
  | @cons x y xs ys hxy _ ih =>
      cases i with
      | zero => exact .inr ⟨x, y, rfl, rfl, hxy⟩
      | succ i => exact ih i

/-- Three lists in step: at every place all of them have an element, and the elements are related,
or none of them has one. -/
def Aligned {α β γ : Type} (R : Nat → α → β → γ → Prop) (xs : List α) (ys : List β)
    (zs : List γ) : Prop :=
  ∀ i : Nat, (xs[i]? = none ∧ ys[i]? = none ∧ zs[i]? = none) ∨
    ∃ x y z, xs[i]? = some x ∧ ys[i]? = some y ∧ zs[i]? = some z ∧ R i x y z

/-- What is made of two lists in step is in step with them. -/
theorem aligned_of_zip {α β γ : Type} {Q : α → β → Prop} {P : Nat → β × α → γ → Prop}
    {xs : List α} {ys : List β} {zs : List γ} (h : List.Forall₂ Q xs ys)
    (hzip : ∀ i : Nat, ((ys.zip xs)[i]? = none ∧ zs[i]? = none) ∨
      ∃ p z, (ys.zip xs)[i]? = some p ∧ zs[i]? = some z ∧ P i p z) :
    Aligned (fun i x y z => Q x y ∧ P i (y, x) z) xs ys zs := by
  intro i
  rcases getElem?_of_forall₂ h i with ⟨hx, hy⟩ | ⟨x, y, hx, hy, hq⟩
  · rcases hzip i with ⟨-, hz⟩ | ⟨p, z, hp, -, -⟩
    · exact .inl ⟨hx, hy, hz⟩
    · obtain ⟨hy', -⟩ := List.getElem?_zip_eq_some.1 hp
      rw [hy] at hy'
      cases hy'
  · have hboth : (ys.zip xs)[i]? = some (y, x) := List.getElem?_zip_eq_some.2 ⟨hy, hx⟩
    rcases hzip i with ⟨hnone, -⟩ | ⟨p, z, hp, hz, hP⟩
    · rw [hboth] at hnone
      cases hnone
    · obtain rfl := Option.some.inj (hboth.symm.trans hp)
      exact .inr ⟨x, y, z, hx, hy, hz, hq, hP⟩

/-- The methods of a class with their signatures and core methods. -/
def ClassChecked (signatures : Signatures) (i : Nat) (c : Tree.Class) (cls : ClassSignature)
    (core : Core.Class) : Prop :=
  Aligned (fun _ m sig method => SignatureOf m sig ∧
    MethodElaborates ⟨signatures, i, cls, sig⟩ m method) c.methods cls.methods core.methods

theorem classChecked_of_checkClass {signatures : Signatures} {i : Nat} {c : Tree.Class}
    {cls : ClassSignature} {core : Core.Class} (hs : List.Forall₂ SignatureOf c.methods cls.methods)
    (h : checkClass signatures i cls c = ⟨core, []⟩) : ClassChecked signatures i c cls core := by
  obtain ⟨methods, hmethods, h⟩ := bind_eq_quiet h
  obtain rfl := pure_eq_quiet h
  have haligned := aligned_of_zip hs (getElem?_of_forall₂ (mapM_eq_quiet hmethods))
  intro j
  rcases haligned j with hnone | ⟨m, sig, method, hm, hsig, hmethod, hof, hcheck⟩
  · exact .inl hnone
  · exact .inr ⟨m, sig, method, hm, hsig, hmethod, hof, elaborates_of_checkMethod hof hcheck⟩

/-- The classes of a program with their signatures and core classes. -/
def Checked (s : Tree.Source) (classes : List Core.Class) : Prop :=
  Aligned (ClassChecked s.signatures) s.classes s.signatures.classes classes

theorem checked_of_checkSource {s : Tree.Source} {classes : List Core.Class}
    (h : checkSource s = ⟨classes, []⟩) : Checked s classes := by
  obtain ⟨signatures, hsource, h⟩ := bind_eq_quiet h
  have hsignatures : s.signatures = signatures := congrArg Reporting.value hsource
  have hcores := getElem?_of_forall₂ (mapM_eq_quiet h)
  have haligned := aligned_of_zip (P := fun i p core => checkClass signatures i p.1 p.2 = ⟨core, []⟩)
    (Signatures.signatureOf_ofSource hsource) fun i => by
      rcases hcores i with ⟨hp, hcore⟩ | ⟨⟨p, k⟩, core, hp, hcore, hcheck⟩
      · rw [List.getElem?_zipIdx, Option.map_eq_none_iff] at hp
        exact .inl ⟨hp, hcore⟩
      · rw [List.getElem?_zipIdx, Option.map_eq_some_iff] at hp
        obtain ⟨p, hp, heq⟩ := hp
        cases heq
        rw [Nat.zero_add] at hcheck
        exact .inr ⟨p, core, hp, hcore, hcheck⟩
  rw [Checked, hsignatures]
  intro i
  rcases haligned i with hnone | ⟨c, cls, core, hc, hcls, hcore, hs, hcheck⟩
  · exact .inl hnone
  · exact .inr ⟨c, cls, core, hc, hcls, hcore, classChecked_of_checkClass hs hcheck⟩

/-- What belongs to a handle in an accepted program. -/
inductive Accepted (s : Tree.Source) (classes : List Core.Class) (h : Handle) : Prop where
  | missing : s.method? h = none → Core.method? classes h = none → Accepted s classes h
  | present {ctx m core} : s.method? h = some (ctx, m) → Core.method? classes h = some core →
      SignatureOf m ctx.method → MethodElaborates ctx m core → Accepted s classes h

/-- Every handle of an accepted program has a method with its core method, or neither. -/
theorem Checked.accepted {s : Tree.Source} {classes : List Core.Class} (h : Checked s classes)
    (place : Handle) : Accepted s classes place := by
  rcases h place.cls.toNat with ⟨hc, -, hcore⟩ | ⟨c, cls, core, hc, hcls, hcore, hclass⟩
  · refine .missing ?_ ?_
    · simp [Tree.Source.method?, hc]
    · simp [Core.method?, hcore]
  rcases hclass place.method.toNat with ⟨hm, -, hmethod⟩ |
    ⟨m, sig, method, hm, hsig, hmethod, hof, helaborates⟩
  · refine .missing ?_ ?_
    · simp [Tree.Source.method?, hc, hcls, hm]
    · simp [Core.method?, hcore, hmethod]
  · have hplace : s.method? place = some (⟨s.signatures, place.cls.toNat, cls, sig⟩, m) := by
      simp [Tree.Source.method?, hc, hcls, hm, hsig]
    have hcore' : Core.method? classes place = some method := by
      simp [Core.method?, hcore, hmethod]
    exact .present hplace hcore' hof helaborates

end Typing

end Scriptlet
