import Scriptlet.Proofs.Binary.Encoding

namespace Scriptlet.Binary

/-!
# Numbers and words

Encoding a number that a format holds and decoding the word gives the number back.
-/

namespace Format

variable {f : Format}

/-- The numbers that a word can stand for. -/
def HoldsDatum (f : Format) : Datum → Prop
  | .finite _ units => f.Holds units
  | .infinite _ => True
  | .nan => False

theorem sign_toNat (negative : Bool) : (negative.toNat % 2 == 1) = negative := by
  cases negative <;> rfl

theorem signBit_toNat (negative : Bool) :
    f.signBit negative = 2 ^ (f.precision - 1) * (2 ^ f.width * negative.toNat) := by
  have hbit := signBit_eq (f := f) negative.toNat_lt
  rwa [sign_toNat] at hbit

/-- The exponents of the numbers that a format holds are below that of the infinite ones. -/
theorem shift_lt_of_le_largest (hp : 0 < f.precision) (hw : 1 < f.width) {m s : ℕ}
    (hm : 2 ^ (f.precision - 1) ≤ m) (h : m * 2 ^ s ≤ f.largest) : s + 2 < 2 ^ f.width := by
  by_contra hge
  have hfour : 2 ^ 2 ≤ 2 ^ f.width := Nat.pow_le_pow_right Nat.zero_lt_two hw
  obtain ⟨j, hj⟩ : ∃ j, 2 ^ f.width = j + 3 := Nat.exists_eq_add_of_le' (by omega)
  have hlargest : f.largest = (2 ^ f.precision - 1) * 2 ^ j := by
    rw [largest, Nat.one_shiftLeft, Nat.one_shiftLeft, Nat.shiftLeft_eq, hj, Nat.add_sub_cancel]
  have hgrow : 2 ^ (f.precision - 1 + (j + 1)) ≤ m * 2 ^ s :=
    (Nat.pow_le_pow_right Nat.zero_lt_two (by omega)).trans (le_significand hm s)
  have hfull : 2 ^ (f.precision - 1 + (j + 1)) = 2 ^ f.precision * 2 ^ j := by
    rw [two_pow_precision hp]
    ring
  have hpos := Nat.two_pow_pos j
  have hmany := Nat.two_pow_pos f.precision
  rw [hlargest, Nat.sub_mul, Nat.one_mul] at h
  have hone := Nat.le_mul_of_pos_left (2 ^ j) hmany
  omega

/-- The parts of the word of a number that a format holds. -/
theorem exists_parts (hp : 0 < f.precision) (hw : 1 < f.width) {d : Datum} (h : f.HoldsDatum d) :
    ∃ sign exponent fraction,
      f.encode d = fraction + 2 ^ (f.precision - 1) * (exponent + 2 ^ f.width * sign) ∧
      fraction < 2 ^ (f.precision - 1) ∧ exponent < 2 ^ f.width ∧ sign < 2 ∧
      f.ofParts sign exponent fraction = d := by
  have hfour : 2 ^ 2 ≤ 2 ^ f.width := Nat.pow_le_pow_right Nat.zero_lt_two hw
  have hpos := Nat.two_pow_pos (f.precision - 1)
  cases d with
  | finite negative units =>
      obtain ⟨hle, m, s, rfl, hm, hs⟩ := h
      have hfull := two_pow_precision hp
      by_cases hsmall : m * 2 ^ s < 2 ^ (f.precision - 1)
      · refine ⟨negative.toNat, 0, m * 2 ^ s, ?_, hsmall, by omega, negative.toNat_lt, ?_⟩
        · rw [encode, signBit_toNat, encodeMagnitude_small hsmall]
          ring
        · rw [ofParts, if_neg (by omega), if_pos rfl, sign_toNat]
      · have hnormal : 2 ^ (f.precision - 1) ≤ m := by
          obtain rfl | hs := hs
          · omega
          · exact hs
        have hlast := shift_lt_of_le_largest hp hw hnormal hle
        have hmagnitude := encodeMagnitude_significand (s := s) hp hnormal hm
        obtain ⟨fraction, rfl⟩ := Nat.exists_eq_add_of_le hnormal
        refine ⟨negative.toNat, s + 1, fraction, ?_, by omega, by omega, negative.toNat_lt, ?_⟩
        · rw [encode, signBit_toNat, hmagnitude]
          ring
        · rw [ofParts, if_neg (by omega), if_neg s.succ_ne_zero, sign_toNat, Nat.add_sub_cancel]
  | infinite negative =>
      refine ⟨negative.toNat, 2 ^ f.width - 1, 0, ?_, hpos, by omega, negative.toNat_lt, ?_⟩
      · rw [encode, signBit_toNat, Nat.one_shiftLeft, Nat.shiftLeft_eq]
        ring
      · rw [ofParts, if_pos rfl, if_pos rfl, sign_toNat]
  | nan => exact h.elim

/-- A number that a format holds is the one of its word. -/
theorem decode_encode (hp : 0 < f.precision) (hw : 1 < f.width) {d : Datum} (h : f.HoldsDatum d) :
    f.decode (f.encode d) = d := by
  obtain ⟨sign, exponent, fraction, hword, hfraction, hexponent, -, hparts⟩ := exists_parts hp hw h
  rw [hword, decode_parts sign hfraction hexponent, hparts]

theorem encode_lt (hp : 0 < f.precision) (hw : 1 < f.width) {d : Datum} (h : f.HoldsDatum d) :
    f.encode d < 2 ^ (f.precision + f.width) := by
  obtain ⟨sign, exponent, fraction, hword, hfraction, hexponent, hsign, -⟩ := exists_parts hp hw h
  have hupper : exponent + 2 ^ f.width * sign + 1 ≤ 2 * 2 ^ f.width := by
    have := Nat.mul_le_mul_left (2 ^ f.width) (Nat.le_of_lt_succ hsign)
    omega
  have := Nat.mul_le_mul_left (2 ^ (f.precision - 1)) hupper
  have hsize : 2 ^ (f.precision + f.width) = 2 ^ (f.precision - 1) * (2 * 2 ^ f.width) := by
    rw [Nat.pow_add, two_pow_precision hp]
    ring
  rw [Nat.mul_add_one] at this
  omega

end Format

section

open Float.Model.UnpackedFloat

variable {f : Format} {g : Float.Model.Format} {b : BitVec g.numBits}

/-- A word that stands for no number is decoded as none. -/
theorem decode_of_isNaN (hm : g.mantissaBitsWithoutImplicit = f.precision - 1)
    (he : g.exponentBits = f.width) (h : IsNaN b) : f.decode b.toNat = .nan := by
  have hexponent := toNat_unpackExponent (b := b)
  have hmantissa := toNat_unpackMantissa (b := b)
  rw [h.1, BitVec.neg_one_eq_allOnes, BitVec.toNat_allOnes, hm, he] at hexponent
  have hfraction : b.toNat % 2 ^ (f.precision - 1) ≠ 0 := by
    rw [← hm, ← hmantissa]
    exact fun hzero => h.2 (BitVec.eq_of_toNat_eq hzero)
  simp only [Format.decode, Nat.shiftLeft_eq, Nat.shiftRight_eq_div_pow, Nat.one_mul]
  rw [if_pos hexponent.symm, if_neg hfraction]

end

theorem ofFloat_toFloat {d : Datum} (h : double.HoldsDatum d) : ofFloat (toFloat d) = d := by
  have hdecode := Format.decode_encode (f := double) (by decide) (by decide) h
  have hword : (UInt64.ofNat (double.encode d)).toNat = double.encode d :=
    UInt64.toNat_ofNat_of_lt' (Format.encode_lt (by decide) (by decide) h)
  obtain hbits | ⟨hnan, -⟩ := float_ofBits_eq_iff.1 (Eq.refl (toFloat d))
  · rw [ofFloat, ← hbits, hword, hdecode]
  · have hnone : double.decode (double.encode d) = .nan := by
      rw [← hword]
      exact decode_of_isNaN (g := .binary64) rfl rfl
        ((isNaN_pack_unpack_iff (by decide)).1 ((isNaN_unpack_iff _).1 hnan))
    rw [hdecode] at hnone
    rw [hnone] at h
    exact h.elim

theorem ofFloat_toFloat_nan : ofFloat (toFloat .nan) = .nan := by
  obtain hbits | ⟨-, hnan⟩ := float_ofBits_eq_iff.1 (Eq.refl (toFloat .nan))
  · rw [ofFloat, ← hbits]
    decide +kernel
  · exact decode_of_isNaN (g := .binary64) rfl rfl ((isNaN_unpack_iff _).1 hnan)

theorem ofFloat32_toFloat32 {d : Datum} (h : single.HoldsDatum d) :
    ofFloat32 (toFloat32 d) = d := by
  have hdecode := Format.decode_encode (f := single) (by decide) (by decide) h
  have hword : (UInt32.ofNat (single.encode d)).toNat = single.encode d :=
    UInt32.toNat_ofNat_of_lt' (Format.encode_lt (by decide) (by decide) h)
  obtain hbits | ⟨hnan, -⟩ := float32_ofBits_eq_iff.1 (Eq.refl (toFloat32 d))
  · rw [ofFloat32, ← hbits, hword, hdecode]
  · have hnone : single.decode (single.encode d) = .nan := by
      rw [← hword]
      exact decode_of_isNaN (g := .binary32) rfl rfl
        ((isNaN_pack_unpack_iff (by decide)).1 ((isNaN_unpack_iff _).1 hnan))
    rw [hdecode] at hnone
    rw [hnone] at h
    exact h.elim

theorem ofFloat32_toFloat32_nan : ofFloat32 (toFloat32 .nan) = .nan := by
  obtain hbits | ⟨-, hnan⟩ := float32_ofBits_eq_iff.1 (Eq.refl (toFloat32 .nan))
  · rw [ofFloat32, ← hbits]
    decide +kernel
  · exact decode_of_isNaN (g := .binary32) rfl rfl ((isNaN_unpack_iff _).1 hnan)

end Scriptlet.Binary
