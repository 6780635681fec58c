import Mathlib.Order.Bounds.Basic
import Scriptlet.Header
import Scriptlet.Proofs.Text.Words

namespace Scriptlet.Header

open Text (AllBlank IsWord Pieces Words isBlank)

/-!
# Header parameters

The parameters of a text are the entries of its first region, which a parenthesis opens and the next
closing one ends on the same line. So a header gives back the parameters that are written in it.
-/

/-- A parenthesis that opens at `p` and is followed by a closing one before the line ends. -/
def Closed (s : List Char) (p : ℕ) : Prop :=
  ∃ before line rest, s = before ++ '(' :: (line ++ ')' :: rest) ∧ before.length = p ∧ '\n' ∉ line

/-- The text between the parenthesis at `p` and the first closing one behind it. -/
inductive Region (s : List Char) (p : ℕ) (inside : List Char) : Prop
  | mk {before rest} : s = before ++ '(' :: (inside ++ ')' :: rest) → before.length = p →
      ')' ∉ inside → Region s p inside

/-- What a segment of a parameter list stands for: its last word with the first one as the type. -/
inductive Reads (s : List Char) : Parameter → Prop
  | blank : Words [] s → Reads s ⟨none, ""⟩
  | name {w} : Words [w] s → Reads s ⟨none, String.ofList w⟩
  | typed {first between last} : Words (first :: (between ++ [last])) s →
      Reads s ⟨some (String.ofList first), String.ofList last⟩

/-- A word that can be the type or the name of a parameter. -/
structure IsToken (w : List Char) : Prop extends IsWord w where
  comma : ',' ∉ w
  opening : '(' ∉ w
  closing : ')' ∉ w

/-- Blanks within a line. -/
structure IsGap (s : List Char) : Prop where
  blank : AllBlank s
  line : '\n' ∉ s

instance (w : List Char) : Decidable (IsToken w) :=
  decidable_of_iff
    (w ≠ [] ∧ (w.all fun c => !isBlank c) = true ∧ ',' ∉ w ∧ '(' ∉ w ∧ ')' ∉ w) <| by
      simp only [List.all_eq_true, Bool.not_eq_true']
      exact ⟨fun ⟨hne, hsolid, hcomma, hopening, hclosing⟩ =>
          ⟨⟨hne, hsolid⟩, hcomma, hopening, hclosing⟩,
        fun h => ⟨h.ne_nil, h.solid, h.comma, h.opening, h.closing⟩⟩

instance (s : List Char) : Decidable (IsGap s) :=
  decidable_of_iff (s.all isBlank = true ∧ '\n' ∉ s) <| by
    simp only [List.all_eq_true]
    exact ⟨fun ⟨hblank, hline⟩ => ⟨hblank, hline⟩, fun h => ⟨h.blank, h.line⟩⟩

/-- The ways to write a parameter with its type. -/
inductive Written : Parameter → List Char → Prop
  | mk {type name front gap back} : IsToken type → IsToken name → IsGap front → IsGap gap →
      gap ≠ [] → IsGap back →
      Written ⟨some (String.ofList type), String.ofList name⟩
        (front ++ (type ++ (gap ++ (name ++ back))))

section

variable {s before inside rest : List Char} {c : Char} {p : ℕ}

/-! ### Regions -/

theorem closed_cons_zero : Closed (c :: s) 0 ↔
    c = '(' ∧ ∃ line rest, s = line ++ ')' :: rest ∧ '\n' ∉ line := by
  constructor
  · rintro ⟨before, line, rest, heq, hlength, hline⟩
    obtain rfl := List.eq_nil_of_length_eq_zero hlength
    obtain ⟨rfl, rfl⟩ := List.cons.inj heq
    exact ⟨rfl, line, rest, rfl, hline⟩
  · rintro ⟨rfl, line, rest, rfl, hline⟩
    exact ⟨[], line, rest, rfl, rfl, hline⟩

theorem closed_cons_succ : Closed (c :: s) (p + 1) ↔ Closed s p := by
  constructor
  · rintro ⟨before, line, rest, heq, hlength, hline⟩
    obtain ⟨d, before, rfl⟩ := List.exists_cons_of_length_eq_add_one hlength
    exact ⟨before, line, rest, (List.cons.inj heq).2, Nat.succ.inj hlength, hline⟩
  · rintro ⟨before, line, rest, rfl, rfl, hline⟩
    exact ⟨c :: before, line, rest, rfl, rfl, hline⟩

theorem Closed.getElem? (h : Closed s p) : s[p]? = some '(' := by
  obtain ⟨before, line, rest, rfl, rfl, -⟩ := h
  simp

theorem interior?_append (hclosing : ')' ∉ inside) (hline : '\n' ∉ inside) :
    interior? (inside ++ ')' :: rest) = some inside := by
  induction inside with
  | nil => rfl
  | cons c inside ih =>
      rw [List.mem_cons, not_or] at hclosing hline
      rw [List.cons_append, interior?, if_neg (Ne.symm hclosing.1), if_neg (Ne.symm hline.1),
        ih hclosing.2 hline.2]
      rfl

theorem interior?_eq_none (h : ∀ line rest, s = line ++ ')' :: rest → '\n' ∈ line) :
    interior? s = none := by
  induction s with
  | nil => rfl
  | cons c s ih =>
      have hc : c ≠ ')' := by
        rintro rfl
        exact List.not_mem_nil (h [] s rfl)
      by_cases hnewline : c = '\n'
      · rw [interior?, if_neg hc, if_pos hnewline]
      · rw [interior?, if_neg hc, if_neg hnewline, ih, Option.map_none]
        intro line rest hs
        have hmem := h (c :: line) rest (by rw [hs]; rfl)
        exact (List.mem_cons.1 hmem).resolve_left (Ne.symm hnewline)

/-- A parenthesis that is not closed on its line is passed over. -/
theorem parenthesized?_cons (h : ¬Closed (c :: s) 0) :
    parenthesized? (c :: s) = parenthesized? s := by
  rw [parenthesized?]
  split
  · next hc =>
      rw [interior?_eq_none]
      · rfl
      · intro line rest hs
        by_contra hline
        exact h (closed_cons_zero.2 ⟨hc, line, rest, hs, hline⟩)
  · rfl

theorem parenthesized?_append (h : ∀ p < before.length, ¬Closed (before ++ s) p) :
    parenthesized? (before ++ s) = parenthesized? s := by
  induction before with
  | nil => rfl
  | cons c before ih =>
      have hskip : parenthesized? (c :: (before ++ s)) = parenthesized? (before ++ s) :=
        parenthesized?_cons (h 0 (Nat.succ_pos _))
      rw [List.cons_append, hskip]
      apply ih
      intro p hp hclosed
      exact h (p + 1) (Nat.succ_lt_succ hp) (closed_cons_succ.2 hclosed)

theorem parenthesized?_eq_none (h : ∀ p, ¬Closed s p) : parenthesized? s = none := by
  have happend : parenthesized? (s ++ []) = parenthesized? [] := by
    apply parenthesized?_append
    intro p _
    rw [List.append_nil]
    exact h p
  rwa [List.append_nil] at happend

/-- The first parenthesis that is closed on its line opens the region. -/
theorem parenthesized?_eq_some
    (hfirst : ∀ p < before.length, ¬Closed (before ++ '(' :: (inside ++ ')' :: rest)) p)
    (hclosing : ')' ∉ inside) (hline : '\n' ∉ inside) :
    parenthesized? (before ++ '(' :: (inside ++ ')' :: rest)) = some inside := by
  rw [parenthesized?_append hfirst, parenthesized?, if_pos rfl, interior?_append hclosing hline]
  rfl

/-- The region behind a parenthesis that is closed on its line ends on that line. -/
theorem Closed.exists_region (h : Closed s p) :
    ∃ before inside rest, s = before ++ '(' :: (inside ++ ')' :: rest) ∧ before.length = p ∧
      ')' ∉ inside ∧ '\n' ∉ inside := by
  obtain ⟨before, line, rest, hs, hlength, hline⟩ := h
  by_cases hclosing : ')' ∈ line
  · -- The line goes on behind the region.
    obtain ⟨inside, between, rfl, hfirst⟩ := List.eq_append_cons_of_mem hclosing
    refine ⟨before, inside, between ++ ')' :: rest, ?_, hlength, hfirst, ?_⟩
    · rw [hs, List.append_assoc, List.cons_append]
    · intro hmem
      exact hline (List.mem_append_left _ hmem)
  · exact ⟨before, line, rest, hs, hlength, hclosing, hline⟩

/-! ### Entries -/

theorem reads_entry (s : List Char) : Reads s (entry s) := by
  have hwords := Text.words_words s
  unfold entry
  split
  · next hnone =>
      rw [hnone] at hwords
      exact .blank hwords
  · next name hname =>
      rw [hname] at hwords
      exact .name hwords
  · next type word rest hmore =>
      rw [hmore, ← List.dropLast_append_getLast (List.cons_ne_nil word rest)] at hwords
      rw [List.getLastD_eq_getLast?, List.getLast?_eq_getLast_of_ne_nil (List.cons_ne_nil word rest)]
      exact .typed hwords

theorem entry_of_words {first last : List Char} (h : Words [first, last] s) :
    entry s = ⟨some (String.ofList first), String.ofList last⟩ := by
  rw [entry, Text.words_iff.1 h]
  rfl

theorem forall₂_reads_entry (segments : List (List Char)) :
    List.Forall₂ Reads segments (segments.map entry) := by
  induction segments with
  | nil => exact .nil
  | cons segment segments ih => exact .cons (reads_entry segment) ih

theorem parameters_of_region (h : parenthesized? s = some inside) (hne : inside ≠ []) :
    parameters s = (Text.split ',' inside).map entry := by
  rw [parameters, h]
  split
  · next hnone => cases hnone
  · next hnil => exact absurd (Option.some.inj hnil) hne
  · next hsome => rw [Option.some.inj hsome]

/-! ### Written parameters -/

theorem IsToken.line {w : List Char} (h : IsToken w) : '\n' ∉ w := by
  intro hmem
  have hsolid := h.solid '\n' hmem
  exact absurd hsolid (by decide)

/-- Only blanks stand in a gap. -/
theorem IsGap.not_mem {gap : List Char} (h : IsGap gap) (hc : isBlank c = false) : c ∉ gap := by
  intro hmem
  rw [h.blank c hmem] at hc
  cases hc

namespace Written

variable {q : Parameter} {piece : List Char}

theorem ne_nil (h : Written q piece) : piece ≠ [] := by
  cases h with
  | mk htype hname hfront hgap hne hback =>
      intro hnil
      rw [List.append_eq_nil_iff, List.append_eq_nil_iff] at hnil
      exact htype.ne_nil hnil.2.1

theorem comma (h : Written q piece) : ',' ∉ piece := by
  cases h with
  | mk htype hname hfront hgap hne hback =>
      have hblank : isBlank ',' = false := by decide
      simp only [List.mem_append, not_or]
      exact ⟨hfront.not_mem hblank, htype.comma, hgap.not_mem hblank, hname.comma,
        hback.not_mem hblank⟩

theorem closing (h : Written q piece) : ')' ∉ piece := by
  cases h with
  | mk htype hname hfront hgap hne hback =>
      have hblank : isBlank ')' = false := by decide
      simp only [List.mem_append, not_or]
      exact ⟨hfront.not_mem hblank, htype.closing, hgap.not_mem hblank, hname.closing,
        hback.not_mem hblank⟩

theorem line (h : Written q piece) : '\n' ∉ piece := by
  cases h with
  | mk htype hname hfront hgap hne hback =>
      simp only [List.mem_append, not_or]
      exact ⟨hfront.line, htype.line, hgap.line, hname.line, hback.line⟩

theorem entry_eq (h : Written q piece) : entry piece = q := by
  cases h with
  | @mk type name front gap back htype hname hfront hgap hne hback =>
      apply entry_of_words
      have hlast : Words [name] (gap ++ (name ++ back)) :=
        .cons hgap.blank hname.toIsWord hback.blank.head? (.nil hback.blank)
      refine .cons hfront.blank htype.toIsWord ?_ hlast
      intro c hc
      rw [List.head?_append_of_ne_nil _ hne] at hc
      exact hgap.blank.head? c hc

end Written

theorem map_entry_of_written {ps : List Parameter} {pieces : List (List Char)}
    (h : List.Forall₂ Written ps pieces) : pieces.map entry = ps := by
  induction h with
  | nil => rfl
  | cons hp _ ih => rw [List.map_cons, hp.entry_eq, ih]

theorem exists_written_of_mem {ps : List Parameter} {pieces : List (List Char)}
    (h : List.Forall₂ Written ps pieces) : ∀ piece ∈ pieces, ∃ q, Written q piece := by
  induction h with
  | nil => exact List.forall_mem_nil _
  | cons hp _ ih => exact List.forall_mem_cons.2 ⟨⟨_, hp⟩, ih⟩

/-- A list of parameters that is written in parentheses is read back. -/
theorem parameters_of_written {ps : List Parameter} {pieces : List (List Char)}
    (hbefore : '(' ∉ before) (hps : ps ≠ []) (h : List.Forall₂ Written ps pieces) :
    parameters (before ++ '(' :: ([','].intercalate pieces ++ ')' :: rest)) = ps := by
  have hpieces : pieces ≠ [] := by
    rintro rfl
    cases h
    exact hps rfl
  have hplain : ∀ piece ∈ pieces, piece ≠ [] ∧ ',' ∉ piece ∧ ')' ∉ piece ∧ '\n' ∉ piece := by
    intro piece hmem
    obtain ⟨q, hq⟩ := exists_written_of_mem h piece hmem
    exact ⟨hq.ne_nil, hq.comma, hq.closing, hq.line⟩
  have hfirst : ∀ p < before.length,
      ¬Closed (before ++ '(' :: ([','].intercalate pieces ++ ')' :: rest)) p := by
    intro p hp hclosed
    have hopens := hclosed.getElem?
    rw [List.getElem?_append_left hp] at hopens
    exact hbefore (List.mem_of_getElem? hopens)
  have hregion := parenthesized?_eq_some hfirst
    (Text.not_mem_intercalate (by decide) fun piece hmem => (hplain piece hmem).2.2.1)
    (Text.not_mem_intercalate (by decide) fun piece hmem => (hplain piece hmem).2.2.2)
  have hne : [','].intercalate pieces ≠ [] :=
    Text.intercalate_ne_nil hpieces fun piece hmem => (hplain piece hmem).1
  rw [parameters_of_region hregion hne,
    Text.split_intercalate hpieces fun piece hmem => (hplain piece hmem).2.1, map_entry_of_written h]

end

/-- The parameters of a text are the entries of its first region; and where a list of parameters
with their types is written in parentheses, behind a text without any, those are the parameters. -/
theorem parameters_found :
    (∀ s, (∀ p, ¬Closed s p) → parameters s = []) ∧
    (∀ s p, IsLeast {p | Closed s p} p → ∃ inside, Region s p inside ∧
      (inside = [] → parameters s = []) ∧
      (inside ≠ [] → ∃ segments, Pieces ',' segments inside ∧
        List.Forall₂ Reads segments (parameters s))) ∧
    ∀ before rest ps pieces, '(' ∉ before → ps ≠ [] → List.Forall₂ Written ps pieces →
      parameters (before ++ '(' :: ([','].intercalate pieces ++ ')' :: rest)) = ps := by
  refine ⟨?_, ?_, ?_⟩
  · intro s h
    rw [parameters, parenthesized?_eq_none h]
  · intro s p hp
    obtain ⟨before, inside, rest, rfl, rfl, hclosing, hline⟩ := hp.1.exists_region
    have hregion := parenthesized?_eq_some (fun q hq hclosed => absurd (hp.2 hclosed) (by omega))
      hclosing hline
    refine ⟨inside, ⟨rfl, rfl, hclosing⟩, ?_, ?_⟩
    · rintro rfl
      rw [parameters, hregion]
    · intro hne
      refine ⟨Text.split ',' inside, Text.pieces_split ',' inside, ?_⟩
      rw [parameters_of_region hregion hne]
      exact forall₂_reads_entry _
  · intro before rest ps pieces hbefore hps hwritten
    exact parameters_of_written hbefore hps hwritten

/-- Two parameters with different blanks around their words, behind the name of a method. -/
theorem parameters_found_sum :
    parameters ("int Sum".toList ++ '(' ::
      ([','].intercalate ["int a".toList, "\tlong  b ".toList] ++ ')' :: " => a + b;".toList)) =
        [⟨some "int", "a"⟩, ⟨some "long", "b"⟩] := by
  have ha : Written ⟨some "int", "a"⟩ "int a".toList :=
    @Written.mk "int".toList "a".toList [] [' '] [] (by decide) (by decide) (by decide) (by decide)
      (by decide) (by decide)
  have hb : Written ⟨some "long", "b"⟩ "\tlong  b ".toList :=
    @Written.mk "long".toList "b".toList ['\t'] [' ', ' '] [' '] (by decide) (by decide)
      (by decide) (by decide) (by decide) (by decide)
  exact parameters_found.2.2 _ _ _ _ (by decide) (by decide) (.cons ha (.cons hb .nil))

end Scriptlet.Header
