import Scriptlet.Proofs.Token.Coverage

namespace Scriptlet.Text

/-!
# Spans in a text

A span fits a text if it begins and ends between characters of the text. Merging keeps this, and so
does cutting a part out of the text that a span holds.
-/

/-- An offset between two characters of a text, or at one of its ends. -/
def IsBoundary (source : List Char) (offset : Nat) : Prop :=
  ∃ front back, source = front ++ back ∧ byteLength front = offset

namespace Span

structure Fits (source : List Char) (s : Span) : Prop where
  ordered : s.start ≤ s.stop
  start : IsBoundary source s.start
  stop : IsBoundary source s.stop

/-- A span that another one covers. -/
def Within (s t : Span) : Prop :=
  t.start ≤ s.start ∧ s.stop ≤ t.stop

section

variable {source text a x b : List Char} {s t u : Span} {offset : Nat}

theorem Fits.stop_le (h : s.Fits source) : s.stop ≤ byteLength source := by
  obtain ⟨front, back, rfl, hlength⟩ := h.stop
  rw [byteLength_append, ← hlength]
  exact Nat.le_add_right _ _

theorem fits_point (h : IsBoundary source offset) : (point offset).Fits source :=
  ⟨Nat.le.refl, h, h⟩

theorem fits_zero (source : List Char) : (point 0).Fits source :=
  fits_point ⟨[], source, rfl, rfl⟩

theorem Fits.merge (hs : s.Fits source) (ht : t.Fits source) : (s.merge t).Fits source where
  ordered := by
    have hs := hs.ordered
    have ht := ht.ordered
    dsimp only [Span.merge]
    omega
  start := by
    dsimp only [Span.merge]
    rcases Nat.le_total s.start t.start with h | h
    · rw [Nat.min_eq_left h]
      exact hs.start
    · rw [Nat.min_eq_right h]
      exact ht.start
  stop := by
    dsimp only [Span.merge]
    rcases Nat.le_total s.stop t.stop with h | h
    · rw [Nat.max_eq_right h]
      exact ht.stop
    · rw [Nat.max_eq_left h]
      exact hs.stop

theorem Holds.fits (h : s.Holds 0 source text) : s.Fits source := by
  obtain ⟨front, back, rfl, hstart, hstop⟩ := h
  rw [Nat.zero_add] at hstart
  refine ⟨by omega, ⟨front, text ++ back, by rw [List.append_assoc], hstart.symm⟩,
    ⟨front ++ text, back, rfl, ?_⟩⟩
  rw [byteLength_append, hstop, hstart]

/-- A part of the text that a span holds. -/
theorem Holds.part (h : s.Holds offset source (a ++ x ++ b))
    (hstart : t.start = s.start + byteLength a) (hstop : t.stop = t.start + byteLength x) :
    t.Holds offset source x ∧ t.Within s := by
  obtain ⟨front, back, rfl, hs, hs'⟩ := h
  simp only [byteLength_append] at hs'
  refine ⟨⟨front ++ a, b ++ back, by simp only [List.append_assoc], ?_, hstop⟩, ?_, ?_⟩
  · rw [hstart, hs, byteLength_append, Nat.add_assoc]
  · omega
  · omega

theorem Within.refl (s : Span) : s.Within s :=
  ⟨Nat.le.refl, Nat.le.refl⟩

end

end Span

end Scriptlet.Text
