import Scriptlet.Proofs.Core.Typing

namespace Scriptlet

/-!
# Types of the catalogue

The routines of the catalogue take what their entries say, and the constants have their types.
-/

open Code (Literal Routine Handle)

namespace Code.Routine.Takes

theorem valued {r : Routine} {params : List DataType} {t : DataType} (h : r.Takes params t) :
    .void ∉ params := by
  cases h with
  | extremum _ ht | abs ht =>
      rintro hvoid
      simp [Catalogue.mathTypes] at ht hvoid
      subst hvoid
      simp at ht
  | toText ht => simpa using ht.symm
  | indexOf ht | replace ht =>
      rintro hvoid
      simp at ht hvoid
      subst hvoid
      simp at ht
  | concat n => simp
  | _ => simp

end Code.Routine.Takes

namespace Catalogue

theorem conforms_typeConstant? {name : String} {t : DataType} {k : Literal}
    (h : typeConstant? name t = some k) : k.toValue.Conforms t := by
  unfold typeConstant? at h
  split at h
  · cases t <;> cases h <;> exact ⟨_, rfl⟩
  · cases t <;> cases h <;> exact ⟨_, rfl⟩
  · simp only [Option.ite_none_right_eq_some, Option.some.injEq] at h
    obtain ⟨rfl, rfl⟩ := h
    exact .inr ⟨_, rfl⟩
  · unfold special? at h
    split at h
    · split at h <;> cases h <;> exact ⟨_, rfl⟩
    · split at h <;> cases h <;> exact ⟨_, rfl⟩
    · cases h

theorem conforms_constant? {owner : Owner} {name : String} {t : DataType} {k : Literal}
    (h : constant? owner name = some (k, t)) : k.toValue.Conforms t := by
  unfold constant? at h
  split at h
  · cases h
    exact ⟨_, rfl⟩
  · cases h
    exact ⟨_, rfl⟩
  · obtain ⟨l, hl, heq⟩ := Option.map_eq_some_iff.1 h
    cases heq
    exact conforms_typeConstant? hl
  · cases h

theorem takes_mathOverloads {count : Nat} {r : Routine} {o : Overload}
    (ho : o ∈ mathOverloads count r)
    (h : ∀ t ∈ mathTypes, r.Takes (List.replicate count t) t) :
    o.routine.Takes o.params o.result := by
  obtain ⟨t, ht, rfl⟩ := List.mem_map.1 ho
  exact h t ht

theorem takes_mathMethods? {name : String} {os : List Overload} (h : mathMethods? name = some os)
    {o : Overload} (ho : o ∈ os) : o.routine.Takes o.params o.result := by
  unfold mathMethods? at h
  split at h
  · cases h
    exact takes_mathOverloads ho fun t ht => .abs ht
  · cases h
    exact takes_mathOverloads ho fun t ht => .extremum (by simp) ht
  · cases h
    exact takes_mathOverloads ho fun t ht => .extremum (by simp) ht
  · cases h
    obtain rfl := List.mem_singleton.1 ho
    exact .pow
  · cases h
    obtain rfl := List.mem_singleton.1 ho
    exact .real (by simp)
  · cases h
    obtain rfl := List.mem_singleton.1 ho
    exact .real (by simp)
  · cases h
    obtain rfl := List.mem_singleton.1 ho
    exact .real (by simp)
  · cases h
    obtain rfl := List.mem_singleton.1 ho
    exact .real (by simp)
  · cases h

theorem takes_consoleMethods? {name : String} {os : List Overload}
    (h : consoleMethods? name = some os) {o : Overload} (ho : o ∈ os) :
    o.routine.Takes o.params o.result := by
  unfold consoleMethods? at h
  split at h
  · cases h
    simp only [List.mem_cons, List.not_mem_nil, or_false] at ho
    rcases ho with rfl | rfl
    · exact .writeNewline
    · exact .print (by simp)
  · cases h
    obtain rfl := List.mem_singleton.1 ho
    exact .print (by simp)
  · cases h

theorem takes_typeMethods? {t : DataType} {name : String} {os : List Overload}
    (h : typeMethods? t name = some os) {o : Overload} (ho : o ∈ os) :
    o.routine.Takes o.params o.result := by
  unfold typeMethods? at h
  split at h
  · cases h
    obtain rfl := List.mem_singleton.1 ho
    exact .isNullOrEmpty
  · split at h
    · cases h
      simp only [List.map_cons, List.map_nil, List.mem_cons, List.not_mem_nil, or_false] at ho
      rcases ho with rfl | rfl | rfl
      · exact .concat 2
      · exact .concat 3
      · exact .concat 4
    · simp only [Option.ite_none_right_eq_some, Option.some.injEq] at h
      obtain ⟨⟨ht, -⟩, rfl⟩ := h
      obtain rfl := List.mem_singleton.1 ho
      exact .parse ht

theorem takes_staticMethods? {owner : Owner} {name : String} {os : List Overload}
    (h : staticMethods? owner name = some os) {o : Overload} (ho : o ∈ os) :
    o.routine.Takes o.params o.result := by
  unfold staticMethods? at h
  split at h
  · exact takes_mathMethods? h ho
  · obtain ⟨t, ht, rfl⟩ := Option.map_eq_some_iff.1 h
    obtain rfl := List.mem_singleton.1 ho
    exact .convertTo ht
  · exact takes_consoleMethods? h ho
  · exact takes_typeMethods? h ho
  · cases h

theorem takes_property? {t u : DataType} {name : String} {r : Routine}
    (h : property? t name = some (r, u)) : r.Takes [t] u := by
  unfold property? at h
  split at h
  · cases h
    exact .length
  · cases h
    exact .message _
  · cases h

theorem takes_stringMethods? {name : String} {os : List Overload}
    (h : stringMethods? name = some os) {o : Overload} (ho : o ∈ os) :
    o.routine.Takes (.string :: o.params) o.result := by
  unfold stringMethods? at h
  split at h <;> cases h <;>
    simp only [List.mem_cons, List.not_mem_nil, or_false] at ho
  · subst ho
    exact .text (by simp)
  · subst ho
    exact .text (by simp)
  · subst ho
    exact .text (by simp)
  · rcases ho with rfl | rfl
    · exact .substring
    · exact .substringOf
  · subst ho
    exact .test (by simp)
  · subst ho
    exact .test (by simp)
  · subst ho
    exact .test (by simp)
  · rcases ho with rfl | rfl
    · exact .indexOf (by simp)
    · exact .indexOf (by simp)
  · rcases ho with rfl | rfl
    · exact .replace (by simp)
    · exact .replace (by simp)

theorem takes_methods? {t : DataType} {name : String} {os : List Overload}
    (h : methods? t name = some os) {o : Overload} (ho : o ∈ os) :
    o.routine.Takes (t :: o.params) o.result := by
  unfold methods? at h
  split at h
  · split at h
    · cases h
    · next ht =>
        cases h
        obtain rfl := List.mem_singleton.1 ho
        exact .toText ht
  · simp only [Option.ite_none_right_eq_some] at h
    obtain ⟨rfl, h⟩ := h
    exact takes_stringMethods? h ho

end Catalogue

end Scriptlet
