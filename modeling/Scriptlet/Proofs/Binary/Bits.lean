import Mathlib

namespace Scriptlet.Binary

/-!
# Bit patterns of floating-point numbers

A bit pattern is the pattern of the number that it stands for, unless it stands for no number: of
the many patterns without a number one is taken for all. What packing and unpacking come to is in
`Batteries.Data.Float`, which only the whole library brings along.
-/

open Float.Model.UnpackedFloat

section

variable {f : Float.Model.Format}

/-- Whether a bit pattern stands for no number. -/
def IsNaN (b : BitVec f.numBits) : Prop :=
  unpackExponent b = -1#_ ∧ unpackMantissa b ≠ 0#_

instance (b : BitVec f.numBits) : Decidable (IsNaN b) :=
  inferInstanceAs (Decidable (_ ∧ _))

theorem isNaNBits_iff (b : BitVec f.numBits) : isNaNBits b = true ↔ IsNaN b :=
  decide_eq_true_iff

theorem pack_unpack_of_not_isNaN {b : BitVec f.numBits} (hexp : 2 ≤ f.exponentBits)
    (h : ¬IsNaN b) : pack f (unpack f b) = b := by
  rw [pack_unpack b hexp, if_neg (mt (isNaNBits_iff b).1 h)]

theorem unpack_of_isNaN {b : BitVec f.numBits} (h : IsNaN b) : unpack f b = .notANumber := by
  rw [unpack, if_pos h.1, if_neg h.2]

theorem isNaN_unpack_iff (b : BitVec f.numBits) : (unpack f b).isNaN = true ↔ IsNaN b := by
  constructor
  · intro h
    by_contra hb
    rw [unpack] at h
    split at h
    · next hones =>
        have hzero : unpackMantissa b = 0#_ := by
          by_contra hne
          exact hb ⟨hones, hne⟩
        rw [if_pos hzero] at h
        cases h
    · split at h
      · split at h <;> cases h
      · cases h
  · intro h
    rw [unpack_of_isNaN h]
    rfl

theorem isNaN_packedNaN : IsNaN (packedNaN f) :=
  (isNaNBits_iff _).1 isNaNBits_packedNaN

theorem isNaN_pack_unpack_iff {b : BitVec f.numBits} (hexp : 2 ≤ f.exponentBits) :
    IsNaN (pack f (unpack f b)) ↔ IsNaN b := by
  by_cases hb : IsNaN b
  · rw [unpack_of_isNaN hb, pack]
    simp only [hb, isNaN_packedNaN]
  · rw [pack_unpack_of_not_isNaN hexp hb]

/-- A pattern stands for the number of another one if they are the same, or if both stand for no
number. -/
theorem pack_unpack_eq_iff {b c : BitVec f.numBits} (hexp : 2 ≤ f.exponentBits) (hc : f.Valid c) :
    pack f (unpack f b) = c ↔ b = c ∨ IsNaN b ∧ IsNaN c := by
  by_cases hb : IsNaN b
  · rw [unpack_of_isNaN hb, pack]
    constructor
    · rintro rfl
      exact Or.inr ⟨hb, isNaN_packedNaN⟩
    · rintro (rfl | ⟨-, hone, hzero⟩)
      · exact (hc.eq_packedNaN hb.1 hb.2).symm
      · exact (hc.eq_packedNaN hone hzero).symm
  · rw [pack_unpack_of_not_isNaN hexp hb]
    simp [hb]

end

/-- A bit pattern stands for a number if it is the pattern of the number; the patterns without a
number all stand for the same. -/
theorem float_ofBits_eq_iff {bits : UInt64} {x : Float} :
    Float.ofBits bits = x ↔ bits = x.toBits ∨ (Float.ofBits bits).isNaN ∧ x.isNaN := by
  have hvalid : Float.Model.Format.binary64.Valid x.toBits.toBitVec := x.toModel.valid
  have hiff := pack_unpack_eq_iff (f := .binary64) (b := bits.toBitVec) (by decide) hvalid
  have hnan : (Float.ofBits bits).isNaN = true ↔ IsNaN (f := .binary64) bits.toBitVec := by
    rw [← isNaN_pack_unpack_iff (by decide)]
    exact isNaN_unpack_iff _
  have hx : x.isNaN = true ↔ IsNaN (f := .binary64) x.toBits.toBitVec := isNaN_unpack_iff _
  have heq : Float.ofBits bits = x ↔
      pack .binary64 (unpack .binary64 bits.toBitVec) = x.toBits.toBitVec := by
    constructor
    · rintro rfl
      rfl
    · intro h
      obtain ⟨⟨xbits, hvalid⟩⟩ := x
      have hbits : UInt64.ofBitVec (pack .binary64 (unpack .binary64 bits.toBitVec)) = xbits :=
        UInt64.toBitVec_inj.1 h
      subst hbits
      rfl
  rw [heq, hiff, hnan, hx, UInt64.toBitVec_inj]

theorem float32_ofBits_eq_iff {bits : UInt32} {x : Float32} :
    Float32.ofBits bits = x ↔ bits = x.toBits ∨ (Float32.ofBits bits).isNaN ∧ x.isNaN := by
  have hvalid : Float.Model.Format.binary32.Valid x.toBits.toBitVec := x.toModel.valid
  have hiff := pack_unpack_eq_iff (f := .binary32) (b := bits.toBitVec) (by decide) hvalid
  have hnan : (Float32.ofBits bits).isNaN = true ↔ IsNaN (f := .binary32) bits.toBitVec := by
    rw [← isNaN_pack_unpack_iff (by decide)]
    exact isNaN_unpack_iff _
  have hx : x.isNaN = true ↔ IsNaN (f := .binary32) x.toBits.toBitVec := isNaN_unpack_iff _
  have heq : Float32.ofBits bits = x ↔
      pack .binary32 (unpack .binary32 bits.toBitVec) = x.toBits.toBitVec := by
    constructor
    · rintro rfl
      rfl
    · intro h
      obtain ⟨⟨xbits, hvalid⟩⟩ := x
      have hbits : UInt32.ofBitVec (pack .binary32 (unpack .binary32 bits.toBitVec)) = xbits :=
        UInt32.toBitVec_inj.1 h
      subst hbits
      rfl
  rw [heq, hiff, hnan, hx, UInt32.toBitVec_inj]

end Scriptlet.Binary
