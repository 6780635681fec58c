import Mathlib.Data.Int.Bitwise

namespace Scriptlet.Binary

/-!
# Words of integers

Bits and shifts of a word are those of every integer in two's complement that wraps around to it.
-/

theorem getLsbD_ofInt (w : Nat) (z : Int) (i : Nat) :
    (BitVec.ofInt w z).getLsbD i = (decide (i < w) && z.testBit i) := by
  cases z with
  | ofNat n =>
      change (BitVec.ofInt w (n : Int)).getLsbD i = _
      rw [BitVec.ofInt_natCast, BitVec.getLsbD_ofNat]
      rfl
  | negSucc n =>
      rw [BitVec.ofInt_negSucc_eq_not_ofNat, BitVec.getLsbD_not, BitVec.getLsbD_ofNat]
      by_cases h : i < w <;> simp [Int.testBit, h]

theorem ofInt_land (w : Nat) (a b : Int) :
    BitVec.ofInt w (a.land b) = BitVec.ofInt w a &&& BitVec.ofInt w b := by
  apply BitVec.eq_of_getLsbD_eq
  intro i hi
  simp only [BitVec.getLsbD_and, getLsbD_ofInt, Int.testBit_land, hi, decide_true, Bool.true_and]

theorem ofInt_lor (w : Nat) (a b : Int) :
    BitVec.ofInt w (a.lor b) = BitVec.ofInt w a ||| BitVec.ofInt w b := by
  apply BitVec.eq_of_getLsbD_eq
  intro i hi
  simp only [BitVec.getLsbD_or, getLsbD_ofInt, Int.testBit_lor, hi, decide_true, Bool.true_and]

theorem ofInt_xor (w : Nat) (a b : Int) :
    BitVec.ofInt w (a.xor b) = BitVec.ofInt w a ^^^ BitVec.ofInt w b := by
  apply BitVec.eq_of_getLsbD_eq
  intro i hi
  simp only [BitVec.getLsbD_xor, getLsbD_ofInt, Int.testBit_lxor, hi, decide_true, Bool.true_and]

theorem ofInt_lnot (w : Nat) (z : Int) : BitVec.ofInt w z.lnot = ~~~BitVec.ofInt w z := by
  apply BitVec.eq_of_getLsbD_eq
  intro i hi
  simp only [BitVec.getLsbD_not, getLsbD_ofInt, Int.testBit_lnot, hi, decide_true, Bool.true_and]

theorem ofInt_mul_two_pow (w : Nat) (z : Int) (k : Nat) :
    BitVec.ofInt w (z * 2 ^ k) = BitVec.ofInt w z <<< k := by
  have h : BitVec.ofInt w (2 ^ k) = BitVec.twoPow w k := by
    apply BitVec.eq_of_toNat_eq
    rw [BitVec.toNat_ofInt, BitVec.toNat_twoPow]
    norm_cast
  rw [BitVec.ofInt_mul, h, BitVec.shiftLeft_eq_mul_twoPow]

/-- Shifting right divides, if the word is the integer itself. -/
theorem sshiftRight_ofInt {w : Nat} {z : Int} (h : z.bmod (2 ^ w) = z) (k : Nat) :
    (BitVec.ofInt w z).sshiftRight k = BitVec.ofInt w (z / 2 ^ k) := by
  have hdiv : ((BitVec.ofInt w z).sshiftRight k).toInt = z / 2 ^ k := by
    rw [BitVec.toInt_sshiftRight, BitVec.toInt_ofInt, h, Int.shiftRight_eq_div_pow]
    norm_cast
  rw [← hdiv, BitVec.ofInt_toInt]

/-- Ones mask a count to its remainder. -/
theorem toNat_ofInt_and_mask (b : Int) {w j : Nat} (hj : j ≤ w) :
    (BitVec.ofInt w b &&& BitVec.ofNat w (2 ^ j - 1)).toNat = (b % 2 ^ j).toNat := by
  have hmask : 2 ^ j - 1 < 2 ^ w := by
    have := Nat.pow_le_pow_right Nat.zero_lt_two hj
    have := Nat.two_pow_pos j
    omega
  have hdvd : ((2 ^ j : Nat) : Int) ∣ ((2 ^ w : Nat) : Int) :=
    Int.natCast_dvd_natCast.2 (Nat.pow_dvd_pow 2 hj)
  have hpos : (0 : Int) ≤ b % (2 ^ w : Nat) := by
    apply Int.emod_nonneg
    have := Nat.two_pow_pos w
    omega
  have h := Int.toNat_emod hpos (Int.natCast_nonneg (2 ^ j))
  rw [Int.emod_emod_of_dvd _ hdvd, Int.toNat_natCast] at h
  rw [BitVec.toNat_and, BitVec.toNat_ofInt, BitVec.toNat_ofNat, Nat.mod_eq_of_lt hmask,
    Nat.and_two_pow_sub_one_eq_mod, ← h]
  norm_cast

theorem smod_of_lt {w : Nat} {x y : BitVec w} (h : x.toNat < y.toNat) (hy : 2 * y.toNat < 2 ^ w) :
    x.smod y = x := by
  have hx : x.toInt = x.toNat := BitVec.toInt_eq_toNat_of_lt (by omega)
  apply BitVec.eq_of_toInt_eq
  rw [BitVec.toInt_smod, BitVec.toInt_eq_toNat_of_lt hy, hx,
    Int.fmod_eq_emod_of_nonneg _ (Int.natCast_nonneg _)]
  exact Int.emod_eq_of_lt (Int.natCast_nonneg _) (Int.ofNat_lt.2 h)

/-- The count of a shift of an `int`. -/
theorem toNat_smod_32 (b : Int) :
    ((Int32.ofInt b &&& 31).toBitVec.smod 32).toNat = (b % 32).toNat := by
  have h : (Int32.ofInt b &&& 31).toBitVec.toNat = (b % 32).toNat :=
    toNat_ofInt_and_mask b (w := 32) (j := 5) (by decide)
  have hlt : (b % 32).toNat < 32 := by omega
  rw [smod_of_lt (by rw [h]; exact hlt) (by decide), h]

/-- The count of a shift of a `long`. -/
theorem toNat_smod_64 (b : Int) :
    ((Int32.ofInt b &&& 63).toInt64.toBitVec.smod 64).toNat = (b % 64).toNat := by
  have h : (Int32.ofInt b &&& 63).toBitVec.toNat = (b % 64).toNat :=
    toNat_ofInt_and_mask b (w := 32) (j := 6) (by decide)
  have hlt : (b % 64).toNat < 64 := by omega
  have hwide : (Int32.ofInt b &&& 63).toInt64.toBitVec.toNat = (b % 64).toNat := by
    rw [Int32.toBitVec_toInt64, BitVec.signExtend_eq_setWidth_of_msb_false,
      BitVec.toNat_setWidth, h]
    · omega
    · rw [BitVec.msb_eq_false_iff_two_mul_lt, h]
      omega
  rw [smod_of_lt (by rw [hwide]; exact hlt) (by decide), hwide]

end Scriptlet.Binary
