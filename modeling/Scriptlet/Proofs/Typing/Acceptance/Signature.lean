import Scriptlet.Proofs.Typing.Reporting
import Scriptlet.Typing.Signature

namespace Scriptlet

/-!
# Accepted signatures

The signatures of a program in which nothing about them is reported: there is one for every method,
its parameters have different names, and each parameter has a type of values.
-/

open Reporting

/-- The signature of a method about which nothing is reported. -/
structure SignatureOf (m : Tree.Method) (s : MethodSignature) : Prop where
  paramNames : s.paramNames = m.params.map (·.name.name)
  length : s.params.length = m.params.length
  distinct : s.paramNames.Nodup
  valued : .void ∉ s.params

namespace Signatures

theorem ne_void_of_paramType {names : TypeNames} {r : Tree.TypeRef} {t : DataType}
    (h : paramType names r = ⟨t, []⟩) : t ≠ .void := by
  unfold paramType at h
  obtain ⟨found, -, h⟩ := bind_eq_quiet h
  split at h
  · obtain ⟨_, hreport, -⟩ := bind_eq_quiet h
    exact absurd hreport (report_ne _ _ _)
  · next hne =>
      obtain rfl := pure_eq_quiet h
      exact fun heq => hne (by rw [heq])
  · obtain rfl := pure_eq_quiet h
    exact DataType.noConfusion

/-- Parameters about which nothing is reported have new names, each a different one. -/
theorem of_paramTypes {names : TypeNames} {before : List String} {params : List Tree.Param}
    {ts : List DataType} (h : paramTypes names before params = ⟨ts, []⟩) :
    ts.length = params.length ∧ .void ∉ ts ∧ (params.map (·.name.name)).Nodup ∧
      ∀ p ∈ params, p.name.name ∉ before := by
  induction params generalizing before ts with
  | nil =>
      obtain rfl := pure_eq_quiet h
      exact ⟨rfl, List.not_mem_nil, List.nodup_nil, fun p hp => absurd hp List.not_mem_nil⟩
  | cons p params ih =>
      rw [paramTypes] at h
      obtain ⟨t, ht, h⟩ := bind_eq_quiet h
      have hnew : before.contains p.name.name = false := by
        cases hcontains : before.contains p.name.name with
        | false => rfl
        | true =>
            rw [hcontains] at h
            obtain ⟨_, hreport, -⟩ := bind_eq_quiet h
            exact absurd hreport (report_ne _ _ _)
      simp only [hnew, Bool.false_eq_true, if_false] at h
      obtain ⟨rest, hrest, h⟩ := bind_eq_quiet h
      obtain rfl := pure_eq_quiet h
      obtain ⟨hlength, hvoid, hnodup, hbefore⟩ := ih hrest
      refine ⟨congrArg (· + 1) hlength, ?_, ?_, ?_⟩
      · intro hmem
        rcases List.mem_cons.1 hmem with heq | hmem
        · exact ne_void_of_paramType ht heq.symm
        · exact hvoid hmem
      · rw [List.map_cons, List.nodup_cons]
        refine ⟨fun hmem => ?_, hnodup⟩
        obtain ⟨q, hq, heq⟩ := List.mem_map.1 hmem
        have hq' := hbefore q hq
        rw [heq] at hq'
        exact hq' List.mem_cons_self
      · intro q hq
        rcases List.mem_cons.1 hq with rfl | hq
        · intro hmem
          rw [List.contains_iff_mem.2 hmem] at hnew
          exact Bool.noConfusion hnew
        · exact fun hmem => hbefore q hq (List.mem_cons_of_mem _ hmem)

theorem signatureOf_ofMethod {names : TypeNames} {cls : String} {before : List String}
    {m : Tree.Method} {s : MethodSignature} (h : ofMethod names cls before m = ⟨s, []⟩) :
    SignatureOf m s := by
  unfold ofMethod at h
  obtain ⟨_, -, h⟩ := bind_eq_quiet h
  obtain ⟨params, hparams, h⟩ := bind_eq_quiet h
  obtain ⟨hlength, hvoid, hnodup, -⟩ := of_paramTypes hparams
  dsimp only at h
  split at h
  · obtain ⟨_, hreport, -⟩ := bind_eq_quiet h
    exact absurd hreport (report_ne _ _ _)
  · split at h
    · obtain ⟨_, hreport, -⟩ := bind_eq_quiet h
      exact absurd hreport (report_ne _ _ _)
    · obtain rfl := pure_eq_quiet h
      exact ⟨rfl, hlength, hnodup, hvoid⟩

theorem signatureOf_ofMethods {names : TypeNames} {cls : String} {before : List String}
    {ms : List Tree.Method} {ss : List MethodSignature}
    (h : ofMethods names cls before ms = ⟨ss, []⟩) : List.Forall₂ SignatureOf ms ss := by
  induction ms generalizing before ss with
  | nil =>
      obtain rfl := pure_eq_quiet h
      exact .nil
  | cons m ms ih =>
      rw [ofMethods] at h
      obtain ⟨first, hfirst, h⟩ := bind_eq_quiet h
      obtain ⟨rest, hrest, h⟩ := bind_eq_quiet h
      obtain rfl := pure_eq_quiet h
      exact .cons (signatureOf_ofMethod hfirst) (ih hrest)

/-- There is a signature for every method of an accepted program, in the same place. -/
theorem signatureOf_ofSource {s : Tree.Source} {signatures : Signatures}
    (h : ofSource s = ⟨signatures, []⟩) :
    List.Forall₂ (fun c cls => List.Forall₂ SignatureOf c.methods cls.methods)
      s.classes signatures.classes := by
  unfold ofSource at h
  obtain ⟨_, -, h⟩ := bind_eq_quiet h
  obtain ⟨classes, hclasses, h⟩ := bind_eq_quiet h
  obtain rfl := pure_eq_quiet h
  refine (mapM_eq_quiet hclasses).imp fun c cls hc => ?_
  obtain ⟨methods, hmethods, hc⟩ := bind_eq_quiet hc
  obtain rfl := pure_eq_quiet hc
  exact signatureOf_ofMethods hmethods

end Signatures

end Scriptlet
