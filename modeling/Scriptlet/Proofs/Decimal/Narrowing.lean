import Scriptlet.Proofs.Binary.Decoding
import Scriptlet.Proofs.Binary.Twice
import Scriptlet.Proofs.Decimal.Reading
import Scriptlet.Proofs.Decimal.Shortest

namespace Scriptlet.Numeral

/-!
# Numerals by way of double precision

A numeral that is read in double precision and then narrowed is the same number of single precision
as the numeral that is read in single precision at once. They can differ only if the numeral is next
to the middle between two neighbours of single precision, and double precision has nothing between
the two.
-/

open Binary (Format Datum double single)

section

variable {f : Format}

/-- Reading gives a number of the format. -/
theorem holdsDatum_toDatum (hp : 1 < f.precision) (n : Numeral) (negative : Bool) :
    f.HoldsDatum (n.toDatum f negative) := by
  unfold toDatum
  split
  · exact f.holds_zero
  · split
    · exact f.holds_zero
    · split
      · trivial
      · unfold Format.ofRatio Format.ofUnits
        dsimp only
        split
        · next hle => exact Format.holds_roundUnits hp (Decimal.tenTo_pos _) hle
        · trivial

/-- The numeral, which is read as the `units` of double precision, is next to the middle between two
numbers of single precision, and is read as that middle. -/
def MovesToMiddle (n : Numeral) (units : ℕ) : Prop :=
  single.IsTie (units * single.one) double.one ∧ (units : ℚ) / double.one ≠ n.value

/-- Narrowing what double precision reads is reading in single precision, unless double precision
moves the numeral to the middle between two numbers. -/
theorem convert_toDatum (n : Numeral) (negative : Bool) :
    double.convert single (n.toDatum double negative) = n.toDatum single negative ∨
      ∃ units, n.toDatum double negative = .finite negative units ∧ n.MovesToMiddle units := by
  have hzero : double.convert single (.finite negative 0) = .finite negative 0 := by
    simp only [Format.convert, Format.ofRatio, Format.ofUnits, Nat.zero_mul, Format.roundUnits_zero,
      Nat.zero_le, if_true]
  unfold toDatum
  split
  · exact .inl hzero
  · split
    · exact .inl hzero
    · split
      · exact .inl rfl
      · have hden := Decimal.tenTo_pos (-n.exponent).toNat
        refine (Binary.convert_ofRatio hden negative _).imp_right ?_
        rintro ⟨units, hdouble, htie, hne⟩
        refine ⟨units, hdouble, htie, fun hvalue => hne ?_⟩
        have hone : (double.one : ℚ) ≠ 0 := by exact_mod_cast double.one_pos.ne'
        have hden' : (Decimal.tenTo (-n.exponent).toNat : ℚ) ≠ 0 := by exact_mod_cast hden.ne'
        rw [value, Decimal.ten_zpow, ← mul_div_assoc, div_eq_div_iff hone hden'] at hvalue
        exact_mod_cast hvalue

end

end Scriptlet.Numeral
