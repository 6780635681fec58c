import Mathlib.Algebra.Order.Field.Basic
import Mathlib.Tactic.LinearCombination
import Mathlib.Tactic.Positivity
import Scriptlet.Proofs.Binary.Twice

namespace Scriptlet.Binary

/-!
# The nearest number

What a quotient is rounded to is the number of the format that is nearest to it, and of two equally
near ones the one with an even significand. A quotient that is nearest to a number beyond the
largest one of the format is rounded to infinity.
-/

namespace Format

open Decimal (reachBelow)

variable {f : Format} {x : ℚ} {units : ℕ} {negative : Bool}

/-- The numbers of units that a significand of the format can make up, however far it is
shifted. -/
def IsNumber (f : Format) (units : ℕ) : Prop :=
  ∃ m s, m < 2 ^ f.precision ∧ units = m * 2 ^ s

/-- The significand of a number, with all its bits in use if it is shifted, is even. -/
def IsEven (f : Format) (units : ℕ) : Prop :=
  ∃ m s, m < 2 ^ f.precision ∧ (s = 0 ∨ 2 ^ (f.precision - 1) ≤ m) ∧ units = m * 2 ^ s ∧ m % 2 = 0

/-- No number is nearer to `x` units, and if another one is equally near, it is the odd one. -/
structure Nearest (f : Format) (x : ℚ) (units : ℕ) : Prop where
  number : f.IsNumber units
  closest : ∀ other, f.IsNumber other → |x - units| ≤ |x - other|
  even : ∀ other, f.IsNumber other → other ≠ units → |x - other| = |x - units| → f.IsEven units

/-- What a number `x` is rounded to. -/
inductive Rounds (f : Format) (negative : Bool) (x : ℚ) : Datum → Prop
  | finite {units : ℕ} (hnearest : f.Nearest (x * f.one) units) (hmost : units ≤ f.largest) :
      Rounds f negative x (.finite negative units)
  | infinite {units : ℕ} (hnearest : f.Nearest (x * f.one) units) (hmore : f.largest < units) :
      Rounds f negative x (.infinite negative)

theorem isNumber_zero (f : Format) : f.IsNumber 0 :=
  ⟨0, 0, Nat.two_pow_pos _, rfl⟩

/-! ### Rounding -/

section

variable {num den m s b r : ℕ}

/-- The bounds of the quotients that are rounded to a number. -/
theorem Near.bounds (h : f.Near num den m s) (hx : x * den = num) (hden : 0 < den) :
    (4 * (m * 2 ^ s : ℕ) : ℚ) ≤ 4 * x + reachBelow f m s ∧
      (4 * x : ℚ) ≤ 4 * (m * 2 ^ s : ℕ) + 2 * (2 ^ s : ℕ) := by
  have hpos : (0 : ℚ) < den := by exact_mod_cast hden
  have hlow : (4 * (m * (den * 2 ^ s)) : ℚ) ≤ 4 * num + reachBelow f m s * den := by
    exact_mod_cast h.low
  have hhigh : (4 * num : ℚ) ≤ 4 * (m * (den * 2 ^ s)) + 2 * (den * 2 ^ s) := by
    exact_mod_cast h.high
  rw [← hx] at hlow hhigh
  push_cast
  constructor
  · refine le_of_mul_le_mul_right ?_ hpos
    linarith
  · refine le_of_mul_le_mul_right ?_ hpos
    linarith

/-- At the ends of these bounds the significand is even. -/
theorem Near.isEven (h : f.Near num den m s) (hx : x * den = num)
    (hend : (4 * (m * 2 ^ s : ℕ) : ℚ) = 4 * x + reachBelow f m s ∨
      (4 * x : ℚ) = 4 * (m * 2 ^ s : ℕ) + 2 * (2 ^ s : ℕ)) : f.IsEven (m * 2 ^ s) := by
  refine ⟨m, s, h.lt, h.normal, rfl, h.even ?_⟩
  refine hend.imp (fun hend => ?_) fun hend => ?_
  · have hscaled : (4 * (m * (den * 2 ^ s)) : ℚ) = 4 * num + reachBelow f m s * den := by
      rw [← hx]
      push_cast at hend
      linear_combination (den : ℚ) * hend
    exact_mod_cast hscaled
  · have hscaled : (4 * num : ℚ) = 4 * (m * (den * 2 ^ s)) + 2 * (den * 2 ^ s) := by
      rw [← hx]
      push_cast at hend
      linear_combination (den : ℚ) * hend
    exact_mod_cast hscaled

/-- A number within these bounds is the nearest one. -/
theorem Near.nearest (hp : 0 < f.precision) (h : f.Near num den m s) (hx : x * den = num)
    (hden : 0 < den) : f.Nearest x (m * 2 ^ s) := by
  obtain ⟨hlow, hhigh⟩ := h.bounds hx hden
  have hreach : (0 : ℚ) < reachBelow f m s := by exact_mod_cast reachBelow_pos f m s
  have hplace : (0 : ℚ) < (2 ^ s : ℕ) := by exact_mod_cast Nat.two_pow_pos s
  have hside : ∀ other, f.IsNumber other → other ≠ m * 2 ^ s →
      |x - (m * 2 ^ s : ℕ)| ≤ |x - other| ∧
        (|x - other| = |x - (m * 2 ^ s : ℕ)| → f.IsEven (m * 2 ^ s)) := by
    rintro other ⟨b, r, hb, rfl⟩ hne
    -- A number on either side is at least twice as far from this one as the quotient is.
    obtain hless | hmore := Nat.lt_or_gt_of_ne hne
    · have hgap : (4 * (b * 2 ^ r : ℕ) + 2 * reachBelow f m s : ℚ) ≤ 4 * (m * 2 ^ s : ℕ) := by
        exact_mod_cast h.add_reach_le hp hb hless
      have hother : |x - (b * 2 ^ r : ℕ)| = x - (b * 2 ^ r : ℕ) := abs_of_nonneg (by linarith)
      rw [hother]
      constructor
      · exact abs_le.2 ⟨by linarith, by linarith⟩
      · intro htie
        obtain hsame | hsame := abs_choice (x - (m * 2 ^ s : ℕ))
        · rw [hsame] at htie
          linarith
        · rw [hsame] at htie
          exact h.isEven hx (.inl (by linarith))
    · have hgap : ((m * 2 ^ s : ℕ) + (2 ^ s : ℕ) : ℚ) ≤ (b * 2 ^ r : ℕ) := by
        exact_mod_cast h.add_place_le hp hb hmore
      have hother : |x - (b * 2 ^ r : ℕ)| = (b * 2 ^ r : ℕ) - x := by
        rw [abs_sub_comm]
        exact abs_of_nonneg (by linarith)
      rw [hother]
      constructor
      · exact abs_le.2 ⟨by linarith, by linarith⟩
      · intro htie
        obtain hsame | hsame := abs_choice (x - (m * 2 ^ s : ℕ))
        · rw [hsame] at htie
          exact h.isEven hx (.inr (by linarith))
        · rw [hsame] at htie
          linarith
  refine ⟨⟨m, s, h.lt, rfl⟩, fun other hother => ?_, fun other hother hne htie => ?_⟩
  · by_cases hne : other = m * 2 ^ s
    · rw [hne]
    · exact (hside other hother hne).1
  · exact (hside other hother hne).2 htie

theorem nearest_roundUnits (hp : 1 < f.precision) (hden : 0 < den) (hx : x * den = num) :
    f.Nearest x (f.roundUnits num den) := by
  obtain ⟨m, s, hround, hnear⟩ := exists_near hp hden num
  rw [hround]
  exact hnear.nearest (by omega) hx hden

theorem rounds_ofRatio (hp : 1 < f.precision) (hden : 0 < den) (hx : x * den = num) :
    f.Rounds negative x (f.ofRatio negative num den) := by
  have hscaled : x * f.one * den = (num * f.one : ℕ) := by
    rw [mul_right_comm, hx]
    push_cast
    rfl
  have hnearest := nearest_roundUnits hp hden hscaled
  rw [ofRatio, ofUnits]
  split
  · next hmost => exact .finite hnearest hmost
  · next hmore => exact .infinite hnearest (Nat.lt_of_not_le hmore)

end

/-! ### Very small and very large numbers -/

/-- Less than half a unit is rounded to zero. -/
theorem rounds_zero (hx : 0 ≤ x) (hsmall : 2 * (x * f.one) < 1) :
    f.Rounds negative x (.finite negative 0) := by
  have hunits : 0 ≤ x * f.one := mul_nonneg hx (Nat.cast_nonneg _)
  have haway : ∀ other : ℕ, other ≠ 0 → |x * f.one - (0 : ℕ)| < |x * f.one - other| := by
    intro other hother
    have hleast : (1 : ℚ) ≤ other := by exact_mod_cast Nat.pos_of_ne_zero hother
    rw [Nat.cast_zero, sub_zero, abs_of_nonneg hunits, abs_sub_comm, abs_of_nonneg (by linarith)]
    linarith
  refine .finite ⟨f.isNumber_zero, fun other _ => ?_, fun other _ hne htie => ?_⟩ (Nat.zero_le _)
  · by_cases hother : other = 0
    · rw [hother]
    · exact (haway other hother).le
  · exact absurd htie (haway other hne).ne'

/-- Beyond the largest number there is one that is at most twice as large. -/
theorem exists_isNumber_gt (hp : 1 < f.precision) :
    ∃ units, f.IsNumber units ∧ f.largest < units ∧ units ≤ 2 * f.largest := by
  obtain ⟨k, hk⟩ : ∃ k, (1 <<< f.width) - 3 = k := ⟨_, rfl⟩
  have hlargest : f.largest = (2 ^ f.precision - 1) * 2 ^ k := by
    rw [largest, hk, Nat.shiftLeft_eq, Nat.one_shiftLeft]
  have hmany : 2 ≤ 2 ^ f.precision := Nat.pow_le_pow_right (n := 2) (by decide) hp.le
  refine ⟨2 ^ f.precision * 2 ^ k, ⟨1, f.precision + k, by omega, ?_⟩, ?_, ?_⟩
  · rw [Nat.pow_add, Nat.one_mul]
  · rw [hlargest]
    exact Nat.mul_lt_mul_of_pos_right (by omega) (Nat.two_pow_pos k)
  · rw [hlargest, ← Nat.mul_assoc]
    exact Nat.mul_le_mul_right _ (by omega)

/-- Nothing that is finite is nearest to twice the largest number or more. -/
theorem Nearest.largest_lt (hp : 1 < f.precision) (h : f.Nearest x units)
    (hlarge : 2 * (f.largest : ℚ) ≤ x) : f.largest < units := by
  obtain ⟨beyond, hnumber, hmore, hless⟩ := exists_isNumber_gt hp
  by_contra hmost
  have hgap : (units : ℚ) < beyond := by exact_mod_cast (Nat.le_of_not_lt hmost).trans_lt hmore
  have hbelow : (beyond : ℚ) ≤ x := le_trans (by exact_mod_cast hless) hlarge
  have hclosest := h.closest beyond hnumber
  rw [abs_of_nonneg (by linarith), abs_of_nonneg (by linarith)] at hclosest
  linarith

theorem rounds_infinite (hp : 1 < f.precision) (hlarge : 2 * (f.largest : ℚ) ≤ x * f.one) :
    f.Rounds negative x (.infinite negative) := by
  have hpos : 0 ≤ x * f.one := le_trans (by positivity) hlarge
  have hx : x * f.one * (x * f.one).den = ((x * f.one).num.toNat : ℕ) := by
    rw [Rat.mul_den_eq_num]
    exact_mod_cast (Int.toNat_of_nonneg (Rat.num_nonneg.2 hpos)).symm
  have hnearest := nearest_roundUnits hp (x * f.one).den_pos hx
  exact .infinite hnearest (hnearest.largest_lt hp hlarge)

/-- Twice the largest number and more is not rounded to a finite number. -/
theorem not_rounds_finite (hp : 1 < f.precision) (hlarge : 2 * (f.largest : ℚ) ≤ x * f.one) :
    ¬f.Rounds negative x (.finite negative units) := by
  intro h
  cases h with
  | finite hnearest hmost => exact absurd (hnearest.largest_lt hp hlarge) (Nat.not_lt_of_le hmost)

end Format

end Scriptlet.Binary
