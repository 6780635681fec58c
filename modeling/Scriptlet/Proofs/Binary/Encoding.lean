import Mathlib.Tactic.Ring
import Scriptlet.Binary.Number
import Scriptlet.Proofs.Binary.Bits
import Scriptlet.Proofs.Binary.Rounding

namespace Scriptlet.Binary

/-!
# Words and numbers

Decoding a word and encoding the number gives the word back, and a number that a word holds is one
that its format holds.
-/

namespace Format

variable {f : Format}

/-- What a word with these parts stands for. -/
def ofParts (f : Format) (sign exponent fraction : ℕ) : Datum :=
  if exponent = 2 ^ f.width - 1 then
    if fraction = 0 then .infinite (sign % 2 == 1) else .nan
  else if exponent = 0 then .finite (sign % 2 == 1) fraction
  else .finite (sign % 2 == 1) ((2 ^ (f.precision - 1) + fraction) * 2 ^ (exponent - 1))

theorem decode_parts (sign : ℕ) {exponent fraction : ℕ}
    (hfraction : fraction < 2 ^ (f.precision - 1)) (hexponent : exponent < 2 ^ f.width) :
    f.decode (fraction + 2 ^ (f.precision - 1) * (exponent + 2 ^ f.width * sign)) =
      f.ofParts sign exponent fraction := by
  have hlow : (fraction + 2 ^ (f.precision - 1) * (exponent + 2 ^ f.width * sign)) /
      2 ^ (f.precision - 1) = exponent + 2 ^ f.width * sign := by
    rw [Nat.add_mul_div_left _ _ (Nat.two_pow_pos _), Nat.div_eq_of_lt hfraction, Nat.zero_add]
  have hhigh : (exponent + 2 ^ f.width * sign) / 2 ^ f.width = sign := by
    rw [Nat.add_mul_div_left _ _ (Nat.two_pow_pos _), Nat.div_eq_of_lt hexponent, Nat.zero_add]
  simp only [decode, ofParts, Nat.shiftLeft_eq, Nat.shiftRight_eq_div_pow, Nat.one_mul, Nat.pow_add,
    ← Nat.div_div_eq_div_mul, Nat.add_mul_mod_self_left, Nat.mod_eq_of_lt hfraction, hlow, hhigh,
    Nat.mod_eq_of_lt hexponent]

/-- A word is made of a sign, an exponent and a fraction. -/
theorem exists_decode_parts (bits : ℕ) :
    ∃ sign exponent fraction,
      bits = fraction + 2 ^ (f.precision - 1) * (exponent + 2 ^ f.width * sign) ∧
      fraction < 2 ^ (f.precision - 1) ∧ exponent < 2 ^ f.width ∧
      f.decode bits = f.ofParts sign exponent fraction := by
  have hfraction : bits % 2 ^ (f.precision - 1) < 2 ^ (f.precision - 1) :=
    Nat.mod_lt _ (Nat.two_pow_pos _)
  have hexponent : bits / 2 ^ (f.precision - 1) % 2 ^ f.width < 2 ^ f.width :=
    Nat.mod_lt _ (Nat.two_pow_pos _)
  have hword := decode_parts (bits / 2 ^ (f.precision - 1) / 2 ^ f.width) hfraction hexponent
  rw [Nat.mod_add_div, Nat.mod_add_div] at hword
  exact ⟨_, _, _, by rw [Nat.mod_add_div, Nat.mod_add_div], hfraction, hexponent, hword⟩

theorem encodeMagnitude_significand (hp : 0 < f.precision) {m s : ℕ}
    (hlow : 2 ^ (f.precision - 1) ≤ m) (hhigh : m < 2 ^ f.precision) :
    f.encodeMagnitude (m * 2 ^ s) = s * 2 ^ (f.precision - 1) + m := by
  have hpos := Nat.two_pow_pos s
  have hlarge : ¬m * 2 ^ s < 2 ^ (f.precision - 1) := by
    have hmany := Nat.le_mul_of_pos_right m hpos
    omega
  have hshift : f.precision - 1 + s + 1 - f.precision = s := by omega
  rw [encodeMagnitude, Nat.one_shiftLeft, if_neg hlarge]
  simp only [log2_eq hp (le_significand hlow s) (significand_lt hhigh s), hshift, Nat.shiftLeft_eq,
    Nat.shiftRight_eq_div_pow, Nat.mul_div_cancel m hpos]

theorem encodeMagnitude_small {units : ℕ} (h : units < 2 ^ (f.precision - 1)) :
    f.encodeMagnitude units = units := by
  rw [encodeMagnitude, Nat.one_shiftLeft, if_pos h]

theorem significand_bounds (hp : 0 < f.precision) {fraction : ℕ}
    (h : fraction < 2 ^ (f.precision - 1)) :
    2 ^ (f.precision - 1) + fraction < 2 ^ f.precision := by
  rw [two_pow_precision hp]
  omega

theorem signBit_eq {sign : ℕ} (h : sign < 2) :
    f.signBit (sign % 2 == 1) = 2 ^ (f.precision - 1) * (2 ^ f.width * sign) := by
  rw [signBit, Nat.one_shiftLeft, Nat.pow_add, ← Nat.mul_assoc]
  obtain rfl | rfl : sign = 0 ∨ sign = 1 := by omega
  · rfl
  · simp

/-- Encoding the number of a word gives the word, if it holds a number. -/
theorem encode_decode (hp : 0 < f.precision) {bits : ℕ}
    (hbits : bits < 2 ^ (f.precision + f.width)) (h : f.decode bits ≠ .nan) :
    f.encode (f.decode bits) = bits := by
  obtain ⟨sign, exponent, fraction, hsplit, hfraction, hexponent, hdecode⟩ :=
    exists_decode_parts (f := f) bits
  have hsign : sign < 2 := by
    by_contra hge
    have hmany : 2 ^ (f.precision - 1) * (2 ^ f.width * 2) ≤
        2 ^ (f.precision - 1) * (2 ^ f.width * sign) :=
      Nat.mul_le_mul_left _ (Nat.mul_le_mul_left _ (Nat.not_lt.1 hge))
    have hsize : 2 ^ (f.precision + f.width) = 2 ^ (f.precision - 1) * (2 ^ f.width * 2) := by
      rw [← Nat.pow_succ, ← Nat.pow_add]
      congr 1
      omega
    rw [Nat.mul_add] at hsplit
    omega
  rw [hdecode, ofParts] at h ⊢
  rw [Nat.mul_add] at hsplit
  split at h
  · next hlast =>
      split at h
      · next hzero =>
          rw [if_pos hlast, if_pos hzero, encode, signBit_eq hsign, Nat.shiftLeft_eq,
            Nat.one_shiftLeft, hsplit, hzero, hlast]
          ring
      · exact absurd rfl h
  · next hlast =>
      rw [if_neg hlast]
      by_cases hzero : exponent = 0
      · rw [if_pos hzero, encode, signBit_eq hsign, encodeMagnitude_small hfraction, hsplit, hzero]
        ring
      · rw [if_neg hzero, encode, signBit_eq hsign, encodeMagnitude_significand hp
          (Nat.le_add_right _ _) (significand_bounds hp hfraction), hsplit]
        obtain ⟨k, rfl⟩ := Nat.exists_eq_add_one_of_ne_zero hzero
        rw [Nat.add_sub_cancel]
        ring

/-- The format of a word holds the number that the word holds. -/
theorem holds_decode (hp : 0 < f.precision) {bits units : ℕ} {negative : Bool}
    (h : f.decode bits = .finite negative units) : f.Holds units := by
  obtain ⟨sign, exponent, fraction, -, hfraction, hexponent, hdecode⟩ :=
    exists_decode_parts (f := f) bits
  have hbounds := significand_bounds hp hfraction
  have hlargest : f.largest = (2 ^ f.precision - 1) * 2 ^ (2 ^ f.width - 3) := by
    simp only [largest, Nat.shiftLeft_eq, Nat.one_mul]
  rw [hdecode, ofParts] at h
  split at h
  · split at h <;> cases h
  · next hlast =>
      split at h
      · cases h
        refine ⟨?_, units, 0, by simp, by omega, .inl rfl⟩
        rw [hlargest]
        exact Nat.le_trans (by omega) (Nat.le_mul_of_pos_right _ (Nat.two_pow_pos _))
      · cases h
        refine ⟨?_, _, _, rfl, hbounds, .inr (Nat.le_add_right _ _)⟩
        rw [hlargest]
        exact Nat.mul_le_mul (by omega) (Nat.pow_le_pow_right (by decide) (by omega))

end Format

open Float.Model.UnpackedFloat

section

variable {f : Format} {g : Float.Model.Format} {b : BitVec g.numBits}

theorem toNat_unpackMantissa :
    (unpackMantissa b).toNat = b.toNat % 2 ^ g.mantissaBitsWithoutImplicit := by
  have hlength : g.mantissaBitsWithoutImplicit - 1 - 0 + 1 = g.mantissaBitsWithoutImplicit := by
    have := g.hm
    omega
  rw [unpackMantissa, BitVec.toNat_cast, BitVec.extractLsb_toNat, hlength, Nat.shiftRight_zero]

theorem toNat_unpackExponent :
    (unpackExponent b).toNat =
      b.toNat / 2 ^ g.mantissaBitsWithoutImplicit % 2 ^ g.exponentBits := by
  have hlength : g.mantissaBitsWithoutImplicit + g.exponentBits - 1 - g.mantissaBitsWithoutImplicit
      + 1 = g.exponentBits := by
    have := g.he
    omega
  rw [unpackExponent, BitVec.toNat_cast, BitVec.extractLsb_toNat, hlength,
    Nat.shiftRight_eq_div_pow]

/-- A word from which no number is decoded stands for none. -/
theorem isNaN_of_decode (hm : g.mantissaBitsWithoutImplicit = f.precision - 1)
    (he : g.exponentBits = f.width) (h : f.decode b.toNat = .nan) : IsNaN b := by
  simp only [Format.decode, Nat.shiftLeft_eq, Nat.shiftRight_eq_div_pow, Nat.one_mul] at h
  split at h
  next hlast =>
    split at h
    · cases h
    · next hfraction =>
        refine ⟨?_, fun hzero => hfraction ?_⟩
        · apply BitVec.eq_of_toNat_eq
          rw [toNat_unpackExponent, BitVec.neg_one_eq_allOnes, BitVec.toNat_allOnes, hm, he]
          exact hlast
        · have hmantissa := toNat_unpackMantissa (b := b)
          rw [hzero, BitVec.toNat_zero, hm] at hmantissa
          exact hmantissa.symm
  next hlast => split at h <;> cases h

end

theorem toFloat_ofFloat (x : Float) : toFloat (ofFloat x) = x := by
  rw [toFloat, float_ofBits_eq_iff]
  by_cases h : ofFloat x = .nan
  · have hnan : IsNaN (f := .binary64) x.toBits.toBitVec := isNaN_of_decode rfl rfl h
    rw [h]
    exact .inr ⟨rfl, (isNaN_unpack_iff _).2 hnan⟩
  · have hword : double.encode (double.decode x.toBits.toNat) = x.toBits.toNat :=
      Format.encode_decode (by decide) x.toBits.toNat_lt h
    refine .inl ?_
    rw [ofFloat, hword, UInt64.ofNat_toNat]

theorem toFloat32_ofFloat32 (x : Float32) : toFloat32 (ofFloat32 x) = x := by
  rw [toFloat32, float32_ofBits_eq_iff]
  by_cases h : ofFloat32 x = .nan
  · have hnan : IsNaN (f := .binary32) x.toBits.toBitVec := isNaN_of_decode rfl rfl h
    rw [h]
    exact .inr ⟨rfl, (isNaN_unpack_iff _).2 hnan⟩
  · have hword : single.encode (single.decode x.toBits.toNat) = x.toBits.toNat :=
      Format.encode_decode (by decide) x.toBits.toNat_lt h
    refine .inl ?_
    rw [ofFloat32, hword, UInt32.ofNat_toNat]

end Scriptlet.Binary
