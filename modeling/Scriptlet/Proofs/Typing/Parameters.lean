import Scriptlet.Proofs.Typing.Scoping
import Scriptlet.Proofs.Typing.Yields
import Scriptlet.Typing.Source

namespace Scriptlet.Typing

/-!
# Parameters

The parameters of a method are declared before its body is checked. They take the first slots, in
their order.
-/

open Variables

/-- The declaration of parameters, which have different names. -/
inductive Parameters : Variables → List (String × DataType) → Variables → Prop where
  | nil {v} : Parameters v [] v
  | cons {v name t u rest w} : Declares v name t u → Parameters u rest w →
      Parameters v ((name, t) :: rest) w

theorem declare_of_lookup?_eq_none {s : Scriptlet.Scopes} {name : String}
    (h : s.lookup? name = none) (l : Local) : ∃ s', s.declare name l = .ok s' := by
  unfold Scriptlet.Scopes.declare
  rw [Scriptlet.Scopes.lookup?, List.findSome?_eq_none_iff] at h
  cases hs : s.frames with
  | nil => exact ⟨s, rfl⟩
  | cons inner outer =>
      rw [hs] at h
      have hinner : Scriptlet.Scopes.binds inner name = false :=
        binds_eq_false.2 (h inner List.mem_cons_self)
      have houter : (outer.any fun frame => Scriptlet.Scopes.binds frame name) = false := by
        rw [List.any_eq_false]
        intro frame hframe
        rw [binds_eq_false.2 (h frame (List.mem_cons_of_mem _ hframe))]
        exact Bool.false_ne_true
      simp only [hinner, houter, Bool.false_eq_true, if_false]
      exact ⟨_, rfl⟩

/-- Parameters of different names are declared. -/
theorem parameters_of_declareParams {ctx : Context} {params : List (String × DataType)}
    {v u : Variables} (h : Yields (declareParams params) ctx v () u)
    (hv : v.scopes.frames ≠ []) (hnew : ∀ p ∈ params, v.look p.1 = none)
    (hnodup : (params.map Prod.fst).Nodup) : Parameters v params u := by
  induction params generalizing v with
  | nil =>
      obtain ⟨-, rfl⟩ := (yields_pure _ _).1 h
      exact .nil
  | cons p rest ih =>
      obtain ⟨name, t⟩ := p
      rw [declareParams] at h
      simp only [yields_bind, yields_reserve, yields_modify] at h
      obtain ⟨slot, w, ⟨rfl, rfl⟩, _, x, rfl, h⟩ := h
      have hfree : v.scopes.lookup? name = none := hnew (name, t) List.mem_cons_self
      obtain ⟨scopes, hscopes⟩ := declare_of_lookup?_eq_none hfree ⟨v.draft.locals, t⟩
      rw [hscopes] at h
      have hdeclares : Declares v name t ⟨scopes, (Code.Drafting.reserve.run v.draft).2⟩ :=
        ⟨hscopes, rfl⟩
      rw [List.map_cons, List.nodup_cons] at hnodup
      refine .cons hdeclares (ih h (hdeclares.active hv) (fun p hp => ?_) hnodup.2)
      have hname : p.1 ≠ name := fun heq => hnodup.1 (List.mem_map.2 ⟨p, hp, heq⟩)
      rw [hdeclares.look_eq hv, if_neg hname]
      exact hnew p (List.mem_cons_of_mem _ hp)

namespace Parameters

variable {v u : Variables} {params : List (String × DataType)}

theorem grows (h : Parameters v params u) : Grows v u := by
  induction h with
  | nil => exact .refl _
  | cons hdeclares _ ih => exact hdeclares.grows.trans ih

theorem active (h : Parameters v params u) (hv : v.scopes.frames ≠ []) :
    u.scopes.frames ≠ [] := by
  induction h with
  | nil => exact hv
  | cons hdeclares _ ih => exact ih (hdeclares.active hv)

theorem types (h : Parameters v params u) (hv : v.scopes.frames ≠ []) (name : String) :
    (u.look name).map Local.type = ((v.look name).map Local.type).or (params.lookup name) := by
  induction h with
  | nil => simp
  | @cons v name' t w rest u hdeclares _ ih =>
      rw [ih (hdeclares.active hv), hdeclares.look_eq hv, List.lookup_cons]
      by_cases hname : name = name'
      · rw [hname, hdeclares.fresh hv]
        simp
      · rw [if_neg hname, beq_eq_false_iff_ne.2 hname]

section

variable (h : Parameters v params u) (hcount : v.draft.locals.toNat + params.length ≤ 65535)

include h hcount

theorem locals_toNat : u.draft.locals.toNat = v.draft.locals.toNat + params.length := by
  induction h with
  | nil => rfl
  | @cons v name t w rest u hdeclares _ ih =>
      rw [List.length_cons] at hcount ⊢
      have hslot : v.draft.locals ≠ 0xFFFF := ne_top_of_toNat_lt (by omega)
      have hsucc := hdeclares.locals_succ hslot
      have hrest := ih (by omega)
      omega

theorem orderly (hv : v.Orderly) : u.Orderly := by
  induction h with
  | nil => exact hv
  | @cons v name t w rest u hdeclares _ ih =>
      rw [List.length_cons] at hcount
      have hslot : v.draft.locals ≠ 0xFFFF := ne_top_of_toNat_lt (by omega)
      have hsucc := hdeclares.locals_succ hslot
      exact ih (by omega) (hdeclares.orderly hv hslot)

/-- A parameter has the slot of its place. -/
theorem entries (hv : v.Orderly) : ∀ e ∈ u.entries, e ∈ v.entries ∨
    ∃ i, params[i]? = some (e.1, e.2.type) ∧ e.2.slot.toNat = v.draft.locals.toNat + i := by
  induction h with
  | nil => exact fun e he => .inl he
  | @cons v name t w rest u hdeclares _ ih =>
      rw [List.length_cons] at hcount
      have hslot : v.draft.locals ≠ 0xFFFF := ne_top_of_toNat_lt (by omega)
      have hsucc := hdeclares.locals_succ hslot
      intro e he
      rcases ih (by omega) (hdeclares.orderly hv hslot) e he with he | ⟨i, hi, hplace⟩
      · rw [hdeclares.entries hv.active] at he
        rcases List.mem_cons.1 he with rfl | he
        · exact .inr ⟨0, rfl, rfl⟩
        · exact .inl he
      · refine .inr ⟨i + 1, hi, ?_⟩
        omega

end

end Parameters

namespace Variables

/-- No variables, in the scope of a method. -/
def start : Variables :=
  opened ⟨.empty, .empty⟩

theorem orderly_start : start.Orderly :=
  ⟨List.cons_ne_nil _ _, .nil, fun _ he => absurd he List.not_mem_nil⟩

theorem count_start {names : List String} {types : List DataType} (h : types.length ≤ 65535) :
    start.draft.locals.toNat + (names.zip types).length ≤ 65535 := by
  have hzip : (names.zip types).length ≤ types.length := by
    rw [List.length_zip]
    exact Nat.min_le_right _ _
  have hstart : start.draft.locals.toNat = 0 := rfl
  omega

end Variables

namespace Parameters

variable {names : List String} {types : List DataType} {v : Variables}
  (h : Parameters .start (names.zip types) v)

include h

theorem draft_empty : v.draft.code = #[] ∧ v.draft.literals = #[] :=
  ⟨h.grows.code, h.grows.literals⟩

theorem look_types (name : String) :
    (v.look name).map Local.type = (names.zip types).lookup name :=
  h.types (List.cons_ne_nil _ _) name

variable (hcount : types.length ≤ 65535)

include hcount

theorem orderly_params : v.Orderly :=
  h.orderly (count_start hcount) orderly_start

/-- The slot of a parameter is its place among the names and among the types. -/
theorem place {e : String × Local} (he : e ∈ v.entries) :
    names[e.2.slot.toNat]? = some e.1 ∧ types[e.2.slot.toNat]? = some e.2.type := by
  rcases h.entries (count_start hcount) orderly_start e he with he | ⟨i, hi, hplace⟩
  · exact absurd he List.not_mem_nil
  · have hslot : e.2.slot.toNat = i := hplace.trans (Nat.zero_add i)
    rw [hslot]
    exact List.getElem?_zip_eq_some.1 hi

end Parameters

end Scriptlet.Typing
