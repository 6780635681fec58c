import Scriptlet.Proofs.Text.Blank
import Scriptlet.Text.Search

namespace Scriptlet.Text

/-!
# Pieces and words

A text is cut into pieces at every separator, and into words by its blanks. Both are said here by
how the text is put together from the parts, which leaves only one way to cut it.
-/

/-- The pieces of a text between its separators. -/
structure Pieces (separator : Char) (pieces : List (List Char)) (s : List Char) : Prop where
  ne_nil : pieces ≠ []
  joined : [separator].intercalate pieces = s
  whole : ∀ piece ∈ pieces, separator ∉ piece

structure IsWord (w : List Char) : Prop where
  ne_nil : w ≠ []
  solid : ∀ c ∈ w, isBlank c = false

/-- The words of a text, in order. A word ends where the text does or at a blank. -/
inductive Words : List (List Char) → List Char → Prop
  | nil {s} : AllBlank s → Words [] s
  | cons {front w rest ws} : AllBlank front → IsWord w → (∀ c ∈ rest.head?, isBlank c = true) →
      Words ws rest → Words (w :: ws) (front ++ (w ++ rest))

section

variable {separator : Char} {pieces : List (List Char)} {s : List Char}

theorem not_mem_intercalate {c : Char} (hc : c ≠ separator)
    (h : ∀ piece ∈ pieces, c ∉ piece) : c ∉ [separator].intercalate pieces := by
  induction pieces with
  | nil => exact List.not_mem_nil
  | cons piece pieces ih =>
      obtain ⟨hpiece, hpieces⟩ := List.forall_mem_cons.1 h
      cases pieces with
      | nil => rwa [List.intercalate_singleton]
      | cons next pieces =>
          rw [List.intercalate_cons_cons]
          simp only [List.mem_append, List.mem_singleton, not_or]
          exact ⟨⟨hpiece, hc⟩, ih hpieces⟩

theorem intercalate_ne_nil (hpieces : pieces ≠ [])
    (h : ∀ piece ∈ pieces, piece ≠ []) : [separator].intercalate pieces ≠ [] := by
  obtain ⟨piece, pieces, rfl⟩ := List.exists_cons_of_ne_nil hpieces
  have hpiece := h piece List.mem_cons_self
  cases pieces with
  | nil => rwa [List.intercalate_singleton]
  | cons next pieces =>
      intro hnil
      rw [List.intercalate_cons_cons, List.append_assoc] at hnil
      exact hpiece (List.append_eq_nil_iff.1 hnil).1

theorem split_of_not_mem (h : separator ∉ s) : split separator s = [s] := by
  induction s with
  | nil => rfl
  | cons c s ih =>
      rw [List.mem_cons, not_or] at h
      rw [split, if_neg (Ne.symm h.1), ih h.2]

theorem split_append (h : separator ∉ s) (rest : List Char) :
    split separator (s ++ separator :: rest) = s :: split separator rest := by
  induction s with
  | nil => rw [List.nil_append, split, if_pos rfl]
  | cons c s ih =>
      rw [List.mem_cons, not_or] at h
      rw [List.cons_append, split, if_neg (Ne.symm h.1), ih h.2]

theorem split_intercalate (hne : pieces ≠ []) (h : ∀ piece ∈ pieces, separator ∉ piece) :
    split separator ([separator].intercalate pieces) = pieces := by
  induction pieces with
  | nil => exact absurd rfl hne
  | cons piece pieces ih =>
      obtain ⟨hpiece, hrest⟩ := List.forall_mem_cons.1 h
      cases pieces with
      | nil =>
          rw [List.intercalate_singleton]
          exact split_of_not_mem hpiece
      | cons next pieces =>
          rw [List.intercalate_cons_cons, List.append_assoc, List.singleton_append,
            split_append hpiece, ih (List.cons_ne_nil _ _) hrest]

theorem pieces_split (separator : Char) (s : List Char) :
    Pieces separator (split separator s) s := by
  induction s with
  | nil => exact ⟨List.cons_ne_nil _ _, rfl, by simp [split]⟩
  | cons c s ih =>
      obtain ⟨piece, pieces, hsplit⟩ := List.exists_cons_of_ne_nil ih.ne_nil
      obtain ⟨-, hjoined, hwhole⟩ := ih
      rw [hsplit] at hjoined hwhole
      rw [split]
      split
      · next hc =>
          refine ⟨List.cons_ne_nil _ _, ?_, List.forall_mem_cons.2 ⟨List.not_mem_nil, ?_⟩⟩
          · rw [hsplit, List.intercalate_cons_cons, hjoined, hc]
            rfl
          · rwa [hsplit]
      · next hc =>
          obtain ⟨hpiece, hpieces⟩ := List.forall_mem_cons.1 hwhole
          rw [hsplit]
          refine ⟨List.cons_ne_nil _ _, ?_, List.forall_mem_cons.2 ⟨?_, hpieces⟩⟩
          · rw [← hjoined]
            cases pieces with
            | nil => rfl
            | cons next pieces => rw [List.intercalate_cons_cons, List.intercalate_cons_cons]; rfl
          · rw [List.mem_cons, not_or]
            exact ⟨Ne.symm hc, hpiece⟩

end

section

variable {front w rest s : List Char} {ws : List (List Char)}

theorem AllBlank.head? {gap : List Char} (h : AllBlank gap) : ∀ c ∈ gap.head?, isBlank c = true :=
  fun c hc => h c (List.mem_of_mem_head? hc)

theorem words_append_blank (h : AllBlank front) : words (front ++ s) = words s := by
  induction front with
  | nil => rfl
  | cons c front ih =>
      obtain ⟨hc, hfront⟩ := List.forall_mem_cons.1 h
      rw [List.cons_append, words, if_pos hc, ih hfront]

/-- A word is read up to the blank behind it. -/
theorem words_append_word (hw : IsWord w) (hrest : ∀ c ∈ rest.head?, isBlank c = true) :
    words (w ++ rest) = w :: words rest := by
  obtain ⟨c, w, rfl⟩ := List.exists_cons_of_ne_nil hw.ne_nil
  obtain ⟨hc, hsolid⟩ := List.forall_mem_cons.1 hw.solid
  have hword : ∀ d ∈ w, (!isBlank d) = true := by
    intro d hd
    rw [hsolid d hd]
    rfl
  have hends : ∀ d ∈ rest.head?, (!isBlank d) = false := by
    intro d hd
    rw [hrest d hd]
    rfl
  obtain ⟨htake, hdrop⟩ := run_append hword hends
  rw [List.cons_append, words, if_neg (by simp [hc]), htake, hdrop]

theorem words_of_words (h : Words ws s) : words s = ws := by
  induction h with
  | @nil s hs =>
      have hnil : words (s ++ []) = words [] := words_append_blank hs
      rw [List.append_nil] at hnil
      rw [hnil, words]
  | cons hfront hw hrest _ ih => rw [words_append_blank hfront, words_append_word hw hrest, ih]

theorem Words.blank_append {c : Char} (hc : isBlank c = true) (h : Words ws s) :
    Words ws (c :: s) := by
  cases h with
  | nil hs => exact .nil (List.forall_mem_cons.2 ⟨hc, hs⟩)
  | @cons front w rest ws hfront hw hrest hws =>
      have hgap : AllBlank (c :: front) := List.forall_mem_cons.2 ⟨hc, hfront⟩
      have hnext := Words.cons hgap hw hrest hws
      exact hnext

theorem words_words (s : List Char) : Words (words s) s := by
  induction s using words.induct with
  | case1 =>
      rw [words]
      exact .nil (List.forall_mem_nil _)
  | case2 c s hc ih =>
      rw [words, if_pos hc]
      exact ih.blank_append hc
  | case3 c s hc ih =>
      rw [words, if_neg hc]
      have hword : IsWord (c :: s.takeWhile (!isBlank ·)) := by
        refine ⟨List.cons_ne_nil _ _, List.forall_mem_cons.2 ⟨by simpa using hc, fun d hd => ?_⟩⟩
        simpa using List.mem_takeWhile_imp hd
      have hends : ∀ d ∈ (s.dropWhile (!isBlank ·)).head?, isBlank d = true := by
        intro d hd
        have hhead := List.head?_dropWhile_not (!isBlank ·) s
        rw [Option.mem_def.1 hd] at hhead
        simpa using hhead
      have hwords := Words.cons (List.forall_mem_nil _) hword hends ih
      rwa [List.nil_append, List.cons_append, List.takeWhile_append_dropWhile] at hwords

/-- A text has just one list of words. -/
theorem words_iff : Words ws s ↔ words s = ws :=
  ⟨words_of_words, fun h => h ▸ words_words s⟩

end

end Scriptlet.Text
