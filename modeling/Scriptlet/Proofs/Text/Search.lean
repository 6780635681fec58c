import Mathlib.Order.Bounds.Basic
import Scriptlet.Text.Search

namespace Scriptlet.Text

/-!
# Where a text occurs

The search finds the least position at which a text occurs, if it occurs at all.
-/

/-- The positions at which `t` occurs in `s`. -/
def Occurrences {α : Type} (t s : List α) : Set ℕ :=
  {k | t <+: s.drop k}

section

variable {α : Type} {t s : List α} {k : ℕ}

theorem mem_occurrences : k ∈ Occurrences t s ↔ t <+: s.drop k :=
  Iff.rfl

theorem isLeast_zero (h : t <+: s) : IsLeast (Occurrences t s) 0 :=
  ⟨h, fun _ _ => Nat.zero_le _⟩

/-- Where a text does not begin, its first occurrence is one later than in the rest. -/
theorem isLeast_succ {a : α} (h : ¬t <+: a :: s) (hk : IsLeast (Occurrences t s) k) :
    IsLeast (Occurrences t (a :: s)) (k + 1) := by
  refine ⟨hk.1, fun j hj => ?_⟩
  cases j with
  | zero => exact absurd hj h
  | succ j => exact Nat.succ_le_succ (hk.2 hj)

/-- A text has its first occurrence within the other one. -/
theorem le_length_of_isLeast (h : IsLeast (Occurrences t s) k) : k ≤ s.length := by
  by_contra hmore
  have hend : t <+: [] := by
    have hprefix := h.1
    rwa [mem_occurrences, List.drop_eq_nil_of_le (Nat.le_of_not_le hmore)] at hprefix
  rw [List.prefix_nil] at hend
  have hzero : 0 ∈ Occurrences t s := by
    rw [hend]
    exact List.nil_prefix
  have := h.2 hzero
  omega

end

section

variable {t s : List Char} {k : ℕ}

theorem isLeast_of_indexOf? (h : indexOf? t s = some k) : IsLeast (Occurrences t s) k := by
  induction s generalizing k with
  | nil =>
      rw [indexOf?] at h
      split at h
      · next hempty =>
          cases h
          rw [List.isEmpty_iff.1 hempty]
          exact isLeast_zero List.nil_prefix
      · cases h
  | cons c s ih =>
      rw [indexOf?] at h
      split at h
      · next hprefix =>
          cases h
          exact isLeast_zero (List.isPrefixOf_iff_prefix.1 hprefix)
      · next hprefix =>
          obtain ⟨j, hj, rfl⟩ := Option.map_eq_some_iff.1 h
          exact isLeast_succ (mt List.isPrefixOf_iff_prefix.2 hprefix) (ih hj)

theorem indexOf?_eq_none_iff : indexOf? t s = none ↔ Occurrences t s = ∅ := by
  rw [Set.eq_empty_iff_forall_notMem]
  constructor
  · intro h
    induction s with
    | nil =>
        rw [indexOf?] at h
        split at h
        · cases h
        · next hempty =>
            intro k hk
            rw [mem_occurrences, List.drop_nil, List.prefix_nil] at hk
            exact hempty (List.isEmpty_iff.2 hk)
    | cons c s ih =>
        rw [indexOf?] at h
        split at h
        · cases h
        · next hprefix =>
            intro k hk
            cases k with
            | zero => exact hprefix (List.isPrefixOf_iff_prefix.2 hk)
            | succ k => exact ih (Option.map_eq_none_iff.1 h) k hk
  · intro h
    cases hfound : indexOf? t s with
    | none => rfl
    | some k => exact absurd (isLeast_of_indexOf? hfound).1 (h k)

/-- The search finds the first occurrence. -/
theorem indexOf?_eq_some_iff : indexOf? t s = some k ↔ IsLeast (Occurrences t s) k := by
  constructor
  · exact isLeast_of_indexOf?
  · intro h
    cases hfound : indexOf? t s with
    | none =>
        rw [indexOf?_eq_none_iff] at hfound
        exact absurd h.1 (hfound ▸ Set.notMem_empty k)
    | some j => rw [(isLeast_of_indexOf? hfound).unique h]

end

end Scriptlet.Text
