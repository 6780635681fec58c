import Scriptlet.Machine.Program

namespace Scriptlet.Machine

/-!
# What loading checks

The check of a module, read as statements about its classes and methods.
-/

open Code (Instr Method Module Handle)

theorem flaw?_eq_none_iff (m : Module) (f : Method) :
    flaw? m f = none ↔
      f.params.length ≤ f.locals.toNat ∧ ∀ i ∈ f.code, inRange m f i = true := by
  unfold flaw?
  by_cases hl : f.locals.toNat < f.params.length
  · simp [hl, Nat.not_le.2 hl]
  · have hle : f.params.length ≤ f.locals.toNat := Nat.le_of_not_lt hl
    simp only [hl, if_false, List.findSome?_eq_none_iff, hle, true_and]
    constructor
    · intro h i hi
      obtain ⟨k, hk, rfl⟩ := Array.mem_iff_getElem.1 hi
      have hmem : (f.code[k], k) ∈ f.code.toList.zipIdx :=
        List.mem_zipIdx_iff_getElem?.2 (by simp [hk])
      simpa using h _ hmem
    · rintro h ⟨i, k⟩ hmem
      have hi : i ∈ f.code := by
        simpa using List.mem_of_getElem? (List.mem_zipIdx_iff_getElem?.1 hmem)
      simp [h i hi]

theorem classError?_eq_none_iff (m : Module) (c : Code.Class) :
    classError? m c = none ↔
      c.methods.size ≤ countLimit ∧ ∀ f ∈ c.methods, flaw? m f = none := by
  unfold classError?
  by_cases hl : countLimit < c.methods.size
  · simp [hl, Nat.not_le.2 hl]
  · simp [hl, Nat.le_of_not_lt hl]

theorem moduleError?_eq_none_iff (m : Module) :
    moduleError? m = none ↔
      m.classes.size ≤ countLimit ∧ ∀ c ∈ m.classes, classError? m c = none := by
  unfold moduleError?
  by_cases hl : countLimit < m.classes.size
  · simp [hl, Nat.not_le.2 hl]
  · simp [hl, Nat.le_of_not_lt hl]

namespace Program

theorem ofModule_eq_ok {m : Module} (h : moduleError? m = none) : ofModule m = .ok ⟨m, h⟩ := by
  unfold ofModule
  split
  · next e he => simp [h] at he
  · rfl

theorem module_of_ofModule {m : Module} {p : Program} (h : ofModule m = .ok p) :
    p.module = m := by
  unfold ofModule at h
  split at h
  · cases h
  · cases h
    rfl

theorem flaw?_method {p : Program} {h : Handle} {f : Method} (hf : p.method? h = some f) :
    flaw? p.module f = none := by
  unfold method? Module.method? at hf
  obtain ⟨c, hc, hm⟩ := Option.bind_eq_some_iff.1 hf
  have hclass := ((moduleError?_eq_none_iff _).1 p.checked).2 c (Array.mem_of_getElem? hc)
  exact ((classError?_eq_none_iff _ _).1 hclass).2 f (Array.mem_of_getElem? hm)

/-- Every instruction of a method of a program is in range. -/
theorem inRange_method {p : Program} {h : Handle} {f : Method} (hf : p.method? h = some f)
    {k : Nat} {i : Instr} (hi : f.code[k]? = some i) : inRange p.module f i = true :=
  ((flaw?_eq_none_iff _ _).1 (flaw?_method hf)).2 i (Array.mem_of_getElem? hi)

/-- The parameters of a method of a program have slots. -/
theorem params_le_locals {p : Program} {h : Handle} {f : Method} (hf : p.method? h = some f) :
    f.params.length ≤ f.locals.toNat :=
  ((flaw?_eq_none_iff _ _).1 (flaw?_method hf)).1

end Program

end Scriptlet.Machine
