import Scriptlet.Proofs.Text.Search
import Scriptlet.Proofs.Text.Utf8

namespace Scriptlet.Text

/-!
# Texts and their bytes

A text can be searched and cut in its bytes. The bytes of one text occur in those of another only
where the characters do, since no character begins with a byte from the inside of one.
-/

open String (utf8EncodeChar)

/-- The bytes in front of a character. -/
def byteOffset (s : List Char) (k : ℕ) : ℕ :=
  (encode (s.take k)).length

section

variable {s t : List Char} {c a : Char} {i k : ℕ}

theorem encode_append (s t : List Char) : encode (s ++ t) = encode s ++ encode t :=
  List.flatMap_append

theorem encode_ne_nil (h : t ≠ []) : encode t ≠ [] := by
  obtain ⟨c, t, rfl⟩ := List.exists_cons_of_ne_nil h
  exact List.append_ne_nil_of_left_ne_nil String.utf8EncodeChar_ne_nil _

/-! ### Characters -/

/-- A byte sequence begins with at most one character. -/
theorem eq_of_utf8EncodeChar_append {x y : List UInt8}
    (h : utf8EncodeChar c ++ x = utf8EncodeChar a ++ y) : c = a ∧ x = y := by
  obtain ⟨b, rest, hbytes⟩ := List.exists_cons_of_ne_nil
    (List.append_ne_nil_of_left_ne_nil (String.utf8EncodeChar_ne_nil (c := c)) x)
  have hleft := decodeFirst_eq_char_iff.2 hbytes.symm
  have hright := decodeFirst_eq_char_iff.2 (hbytes.symm.trans h)
  exact Decoded.char.inj (hleft.symm.trans hright)

theorem encode_prefix_iff : encode t <+: encode s ↔ t <+: s := by
  constructor
  · intro h
    induction t generalizing s with
    | nil => exact List.nil_prefix
    | cons c t ih =>
        obtain ⟨rest, hrest⟩ := h
        rw [encode_cons, List.append_assoc] at hrest
        cases s with
        | nil => exact absurd (List.append_eq_nil_iff.1 hrest).1 String.utf8EncodeChar_ne_nil
        | cons a s =>
            obtain ⟨rfl, htail⟩ := eq_of_utf8EncodeChar_append hrest
            exact List.cons_prefix_cons.2 ⟨rfl, ih ⟨rest, htail⟩⟩
  · rintro ⟨rest, rfl⟩
    rw [encode_append]
    exact List.prefix_append _ _

theorem encode_inj : encode s = encode t ↔ s = t := by
  constructor
  · intro h
    have hleft : s <+: t := encode_prefix_iff.1 (h ▸ List.prefix_rfl)
    have hright : t <+: s := encode_prefix_iff.1 (h ▸ List.prefix_rfl)
    exact hleft.eq_of_length_le hright.length_le
  · rintro rfl
    rfl

/-- No text begins with the bytes from the inside of a character. -/
theorem not_prefix_drop (ht : t ≠ []) (hi : 0 < i) (hlength : i < (utf8EncodeChar c).length)
    (rest : List UInt8) : ¬encode t <+: (utf8EncodeChar c ++ rest).drop i := by
  intro h
  obtain ⟨a, t, rfl⟩ := List.exists_cons_of_ne_nil ht
  obtain ⟨more, hmore⟩ := h
  have hpos : 0 < (utf8EncodeChar a).length :=
    List.length_pos_iff.2 String.utf8EncodeChar_ne_nil
  have hsame : (utf8EncodeChar a)[0] = (utf8EncodeChar c)[i] := by
    have hhead := congrArg (·[0]?) hmore
    simp only [encode_cons, List.append_assoc, List.getElem?_drop, Nat.add_zero] at hhead
    rwa [List.getElem?_append_left hpos, List.getElem?_append_left hlength,
      List.getElem?_eq_getElem hpos, List.getElem?_eq_getElem hlength, Option.some_inj] at hhead
  have hfirst : ((utf8EncodeChar c)[i]).IsUTF8FirstByte :=
    hsame ▸ UInt8.isUTF8FirstByte_getElem_zero_utf8EncodeChar
  exact hi.ne' (UInt8.isUTF8FirstByte_getElem_utf8EncodeChar.1 hfirst)

/-! ### Cutting -/

theorem drop_byteOffset (s : List Char) (k : ℕ) :
    (encode s).drop (byteOffset s k) = encode (s.drop k) := by
  have hsplit : encode s = encode (s.take k) ++ encode (s.drop k) := by
    rw [← encode_append, List.take_append_drop]
  rw [hsplit, byteOffset, List.drop_left]

/-- The bytes between two characters are those of the characters between them. -/
theorem take_byteOffset (s : List Char) (start length : ℕ) :
    ((encode s).drop (byteOffset s start)).take
        (byteOffset s (start + length) - byteOffset s start) =
      encode ((s.drop start).take length) := by
  have hlength : byteOffset s (start + length) - byteOffset s start =
      (encode ((s.drop start).take length)).length := by
    rw [byteOffset, byteOffset, List.take_add, encode_append, List.length_append,
      Nat.add_sub_cancel_left]
  have hsplit : encode (s.drop start) =
      encode ((s.drop start).take length) ++ encode ((s.drop start).drop length) := by
    rw [← encode_append, List.take_append_drop]
  rw [drop_byteOffset, hlength, hsplit, List.take_left]

theorem byteOffset_succ (c : Char) (s : List Char) (k : ℕ) :
    byteOffset (c :: s) (k + 1) = (utf8EncodeChar c).length + byteOffset s k := by
  rw [byteOffset, byteOffset, List.take_succ_cons, encode_cons, List.length_append]

theorem byteOffset_mono {j : ℕ} (s : List Char) (h : j ≤ k) :
    byteOffset s j ≤ byteOffset s k := by
  obtain ⟨m, rfl⟩ := Nat.exists_eq_add_of_le h
  rw [byteOffset, byteOffset, List.take_add, encode_append, List.length_append]
  exact Nat.le_add_right _ _

/-! ### Searching -/

/-- The bytes of a text occur exactly where the text does. -/
theorem mem_occurrences_encode_iff (ht : t ≠ []) :
    i ∈ Occurrences (encode t) (encode s) ↔ ∃ k ∈ Occurrences t s, i = byteOffset s k := by
  constructor
  · intro h
    induction s generalizing i with
    | nil =>
        rw [mem_occurrences, encode_nil, List.drop_nil, List.prefix_nil] at h
        exact absurd h (encode_ne_nil ht)
    | cons c s ih =>
        -- At the front, inside the first character, or in the rest of the text.
        obtain rfl | hpos := Nat.eq_zero_or_pos i
        · exact ⟨0, encode_prefix_iff.1 h, rfl⟩
        · obtain hinside | hbehind := Nat.lt_or_ge i (utf8EncodeChar c).length
          · exact absurd h (not_prefix_drop ht hpos hinside _)
          · obtain ⟨j, rfl⟩ := Nat.exists_eq_add_of_le hbehind
            rw [mem_occurrences, encode_cons, List.drop_length_add_append] at h
            obtain ⟨k, hk, rfl⟩ := ih h
            exact ⟨k + 1, hk, (byteOffset_succ c s k).symm⟩
  · rintro ⟨k, hk, rfl⟩
    rw [mem_occurrences, drop_byteOffset]
    exact encode_prefix_iff.2 hk

/-- The first occurrence in the bytes is the first one in the text. -/
theorem isLeast_encode (h : IsLeast (Occurrences t s) k) :
    IsLeast (Occurrences (encode t) (encode s)) (byteOffset s k) := by
  by_cases ht : t = []
  · subst ht
    have hzero : k = 0 := h.unique (isLeast_zero List.nil_prefix)
    rw [hzero]
    exact isLeast_zero List.nil_prefix
  · refine ⟨(mem_occurrences_encode_iff ht).2 ⟨k, h.1, rfl⟩, fun i hi => ?_⟩
    obtain ⟨j, hj, rfl⟩ := (mem_occurrences_encode_iff ht).1 hi
    exact byteOffset_mono s (h.2 hj)

theorem occurrences_encode_eq_empty (h : Occurrences t s = ∅) :
    Occurrences (encode t) (encode s) = ∅ := by
  rw [Set.eq_empty_iff_forall_notMem] at h ⊢
  have ht : t ≠ [] := by
    rintro rfl
    exact h 0 List.nil_prefix
  intro i hi
  obtain ⟨k, hk, -⟩ := (mem_occurrences_encode_iff ht).1 hi
  exact h k hk

theorem encode_suffix_iff : encode t <:+ encode s ↔ t <:+ s := by
  constructor
  · rintro ⟨front, hfront⟩
    by_cases ht : t = []
    · rw [ht]
      exact List.nil_suffix
    · have hdrop : (encode s).drop front.length = encode t := by
        rw [← hfront, List.drop_left]
      have hoccurs : front.length ∈ Occurrences (encode t) (encode s) :=
        ⟨[], by rw [List.append_nil, hdrop]⟩
      obtain ⟨k, -, hk⟩ := (mem_occurrences_encode_iff ht).1 hoccurs
      have hrest : encode (s.drop k) = encode t := by
        rw [← drop_byteOffset, ← hk, ← hfront, List.drop_left]
      rw [← encode_inj.1 hrest]
      exact List.drop_suffix k s
  · rintro ⟨front, rfl⟩
    rw [encode_append]
    exact List.suffix_append _ _

end

end Scriptlet.Text
