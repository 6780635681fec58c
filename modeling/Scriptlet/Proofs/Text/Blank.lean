import Mathlib.Data.List.Basic
import Mathlib.Data.List.TakeWhile
import Scriptlet.Text.Blank

namespace Scriptlet.Text

/-!
# Blanks at the ends of a text

Trimming takes all blanks off both ends of a text, and nothing else.
-/

/-- A text of nothing but blanks. -/
def AllBlank (s : List Char) : Prop :=
  ∀ c ∈ s, isBlank c = true

/-- The text `t` is `s` without the blanks at its ends. -/
structure Stripped (s t : List Char) : Prop where
  between : ∃ front back, s = front ++ t ++ back ∧ AllBlank front ∧ AllBlank back
  first : ∀ c ∈ t.head?, isBlank c = false
  last : ∀ c ∈ t.getLast?, isBlank c = false

section

variable {s t front back : List Char}

theorem AllBlank.reverse (h : AllBlank s) : AllBlank s.reverse :=
  fun c hc => h c (List.mem_reverse.1 hc)

/-- A run of characters ends in front of the first one that does not belong to it. -/
theorem run_append {run : Char → Bool} {rest : List Char} (hs : ∀ c ∈ s, run c = true)
    (hrest : ∀ c ∈ rest.head?, run c = false) :
    (s ++ rest).takeWhile run = s ∧ (s ++ rest).dropWhile run = rest := by
  rw [List.takeWhile_append_of_pos hs, List.dropWhile_append_of_pos hs]
  cases rest with
  | nil => exact ⟨List.append_nil s, rfl⟩
  | cons c rest =>
      rw [List.takeWhile_cons, List.dropWhile_cons, hrest c rfl, if_neg Bool.false_ne_true,
        if_neg Bool.false_ne_true, List.append_nil]
      exact ⟨rfl, rfl⟩

theorem dropWhile_append_blank (hfront : AllBlank front)
    (h : ∀ c ∈ s.head?, isBlank c = false) : (front ++ s).dropWhile isBlank = s :=
  (run_append hfront h).2

theorem trimLeft_append (hfront : AllBlank front) (hfirst : ∀ c ∈ t.head?, isBlank c = false)
    (hne : t ≠ []) : trimLeft (front ++ (t ++ back)) = t ++ back := by
  refine dropWhile_append_blank hfront fun c hc => hfirst c ?_
  rwa [List.head?_append_of_ne_nil _ hne] at hc

theorem trimRight_append (hback : AllBlank back) (hlast : ∀ c ∈ t.getLast?, isBlank c = false) :
    trimRight (t ++ back) = t := by
  have hhead : ∀ c ∈ t.reverse.head?, isBlank c = false := by
    rw [List.head?_reverse]
    exact hlast
  rw [trimRight, List.reverse_append, dropWhile_append_blank hback.reverse hhead,
    List.reverse_reverse]

theorem trim_of_allBlank (h : AllBlank s) : trim s = [] := by
  rw [trim, trimLeft, List.dropWhile_eq_nil_iff.2 h]
  rfl

/-- What is left without blanks at the ends is the trimmed text. -/
theorem Stripped.trim_eq (h : Stripped s t) : trim s = t := by
  obtain ⟨⟨front, back, rfl, hfront, hback⟩, hfirst, hlast⟩ := h
  obtain rfl | hne := eq_or_ne t []
  · rw [List.append_nil]
    exact trim_of_allBlank fun c hc => (List.mem_append.1 hc).elim (hfront c) (hback c)
  · rw [List.append_assoc, trim, trimLeft_append hfront hfirst hne,
      trimRight_append hback hlast]

/-- A text without blanks at its ends stays as it is. -/
theorem stripped_self (hfirst : ∀ c ∈ s.head?, isBlank c = false)
    (hlast : ∀ c ∈ s.getLast?, isBlank c = false) : Stripped s s :=
  ⟨⟨[], [], (List.append_nil s).symm, List.forall_mem_nil _, List.forall_mem_nil _⟩, hfirst, hlast⟩

theorem allBlank_takeWhile (s : List Char) : AllBlank (s.takeWhile isBlank) :=
  fun _ hc => List.mem_takeWhile_imp hc

theorem head?_dropWhile (s : List Char) : ∀ c ∈ (s.dropWhile isBlank).head?, isBlank c = false := by
  intro c hc
  have hhead := List.head?_dropWhile_not isBlank s
  rw [Option.mem_def.1 hc] at hhead
  exact hhead

/-- A trimmed text is followed by the blanks at the end. -/
theorem exists_trimRight_append (s : List Char) :
    ∃ back, s = trimRight s ++ back ∧ AllBlank back := by
  refine ⟨(s.reverse.takeWhile isBlank).reverse, ?_, (allBlank_takeWhile _).reverse⟩
  rw [trimRight, ← List.reverse_append, List.takeWhile_append_dropWhile, List.reverse_reverse]

theorem stripped_trim (s : List Char) : Stripped s (trim s) := by
  obtain ⟨back, hback, hblank⟩ := exists_trimRight_append (trimLeft s)
  rw [← trim] at hback
  refine ⟨⟨s.takeWhile isBlank, back, ?_, allBlank_takeWhile s, hblank⟩, ?_, ?_⟩
  · rw [List.append_assoc, ← hback, trimLeft, List.takeWhile_append_dropWhile]
  · intro c hc
    have hne : trim s ≠ [] := by
      intro hnil
      rw [hnil] at hc
      cases hc
    refine head?_dropWhile s c ?_
    rwa [← trimLeft, hback, List.head?_append_of_ne_nil _ hne]
  · intro c hc
    rw [trim, trimRight, List.getLast?_reverse] at hc
    exact head?_dropWhile _ c hc

/-- Trimming is stripping off blanks. -/
theorem stripped_iff : Stripped s t ↔ trim s = t :=
  ⟨Stripped.trim_eq, fun h => h ▸ stripped_trim s⟩

end

end Scriptlet.Text
