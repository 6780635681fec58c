import Mathlib.Algebra.Order.Field.Basic
import Mathlib.Data.Nat.Log
import Mathlib.Tactic.Ring
import Mathlib.Tactic.Linarith
import Scriptlet.Decimal.Shortest

namespace Scriptlet

/-!
# Rounding to a binary format

The numbers that a format holds, and the quotients that round to one of them: those at most half a
unit of its last place away, and a half itself if the last place is even.
-/

namespace Binary

/-- A quotient is rounded to a whole number at most a half away, and if a half away to an even
one. -/
theorem nearest_eq {num den m : ℕ} (hden : 0 < den) (hbelow : 2 * (m * den) ≤ 2 * num + den)
    (habove : 2 * num ≤ 2 * (m * den) + den)
    (heven : 2 * (m * den) = 2 * num + den ∨ 2 * num = 2 * (m * den) + den → m % 2 = 0) :
    nearest num den = m := by
  rcases Nat.lt_or_ge num (m * den) with hless | hmore
  · obtain ⟨k, rfl⟩ : ∃ k, m = k + 1 := by
      refine Nat.exists_eq_add_one_of_ne_zero ?_
      rintro rfl
      omega
    have hstep : (k + 1) * den = den * k + den := by ring
    rw [hstep] at hbelow habove heven hless
    obtain ⟨hq, hr⟩ := (Nat.div_mod_unique (a := num) (c := num - den * k) (d := k) hden).2
      ⟨by omega, by omega⟩
    simp only [nearest, hq, hr]
    rcases Nat.lt_or_ge den (2 * (num - den * k)) with hfar | hnear
    · rw [if_neg (by omega), if_pos hfar]
    · have hodd := heven (.inl (by omega))
      rw [if_neg (by omega), if_neg (by omega)]
      omega
  · rw [Nat.mul_comm m den] at hmore hbelow habove heven
    obtain ⟨hq, hr⟩ := (Nat.div_mod_unique (a := num) (c := num - den * m) (d := m) hden).2
      ⟨by omega, by omega⟩
    simp only [nearest, hq, hr]
    rcases Nat.lt_or_ge (2 * (num - den * m)) den with hnear | hfar
    · rw [if_pos hnear]
    · have hrest := heven (.inr (by omega))
      rw [if_neg (by omega), if_neg (by omega), hrest, Nat.add_zero]

namespace Format

variable {f : Format} {units : ℕ}

theorem one_pos (f : Format) : 0 < f.one := by
  simp [one, Nat.one_shiftLeft]

theorem two_pow_precision (hp : 0 < f.precision) :
    2 ^ f.precision = 2 * 2 ^ (f.precision - 1) := by
  rw [← Nat.pow_succ', Nat.succ_eq_add_one, Nat.sub_add_cancel hp]

theorem log2_eq (hp : 0 < f.precision) {s : ℕ} (hlow : 2 ^ (f.precision - 1 + s) ≤ units)
    (hhigh : units < 2 ^ (f.precision + s)) : units.log2 = f.precision - 1 + s := by
  have hexp : f.precision - 1 + s + 1 = f.precision + s := by omega
  rw [Nat.log2_eq_iff ((Nat.two_pow_pos _).trans_le hlow).ne', hexp]
  exact ⟨hlow, hhigh⟩

/-- A number of units is shifted by the places that it has beyond the precision. -/
theorem shift_eq (hp : 0 < f.precision) {s : ℕ} (hlow : s = 0 ∨ 2 ^ (f.precision - 1 + s) ≤ units)
    (hhigh : units < 2 ^ (f.precision + s)) : f.shift units = s := by
  rw [shift, Nat.one_shiftLeft]
  by_cases hsmall : units < 2 ^ f.precision
  · rw [if_pos hsmall]
    rcases hlow with rfl | hlow
    · rfl
    · by_contra hs
      have hgrow : 2 ^ f.precision ≤ 2 ^ (f.precision - 1 + s) :=
        Nat.pow_le_pow_right (by decide) (by omega)
      omega
  · have hzero : s ≠ 0 := by
      rintro rfl
      exact hsmall hhigh
    have hlog := log2_eq hp (hlow.resolve_left hzero) hhigh
    rw [if_neg hsmall]
    omega

/-- The numbers of units that a format holds: a significand of the precision, shifted, with all its
bits in use if it is. -/
def Holds (f : Format) (units : ℕ) : Prop :=
  units ≤ f.largest ∧ ∃ m s, units = m * 2 ^ s ∧ m < 2 ^ f.precision ∧
    (s = 0 ∨ 2 ^ (f.precision - 1) ≤ m)

theorem holds_zero (f : Format) : f.Holds 0 :=
  ⟨Nat.zero_le _, 0, 0, rfl, Nat.two_pow_pos _, .inl rfl⟩

theorem roundUnits_zero (f : Format) (den : ℕ) : f.roundUnits 0 den = 0 := by
  simp [roundUnits, nearest]

/-- A significand of the precision, shifted, has as many places more as it is shifted by. -/
theorem le_significand {m : ℕ} (hm : 2 ^ (f.precision - 1) ≤ m) (s : ℕ) :
    2 ^ (f.precision - 1 + s) ≤ m * 2 ^ s := by
  rw [Nat.pow_add]
  exact Nat.mul_le_mul_right _ hm

theorem significand_lt {m : ℕ} (hm : m < 2 ^ f.precision) (s : ℕ) :
    m * 2 ^ s < 2 ^ (f.precision + s) := by
  rw [Nat.pow_add]
  exact (Nat.mul_lt_mul_right (Nat.two_pow_pos s)).2 hm

theorem shift_significand (hp : 0 < f.precision) {m s : ℕ} (hm : m < 2 ^ f.precision)
    (hs : s = 0 ∨ 2 ^ (f.precision - 1) ≤ m) : f.shift (m * 2 ^ s) = s :=
  shift_eq hp (hs.imp_right fun hs => le_significand hs s) (significand_lt hm s)

/-- A quotient in the reach of a shift is rounded to the nearest multiple of the last place, whose
value is that of `place` quotients. -/
theorem roundUnits_eq (hp : 0 < f.precision) {num den m s place : ℕ} (hden : 0 < den)
    (hplace : place = den * 2 ^ s) (hlow : s = 0 ∨ 2 ^ (f.precision - 1) * place ≤ num)
    (hhigh : num < 2 ^ f.precision * place) (hbelow : 2 * (m * place) ≤ 2 * num + place)
    (habove : 2 * num ≤ 2 * (m * place) + place)
    (heven : 2 * (m * place) = 2 * num + place ∨ 2 * num = 2 * (m * place) + place → m % 2 = 0) :
    f.roundUnits num den = m * 2 ^ s := by
  have hpos : 0 < place := hplace ▸ Nat.mul_pos hden (Nat.two_pow_pos s)
  have hshift : f.shift (num / den) = s := by
    refine shift_eq hp (hlow.imp_right fun hlow => ?_) ?_
    · rw [Nat.le_div_iff_mul_le hden, Nat.pow_add]
      calc 2 ^ (f.precision - 1) * 2 ^ s * den = 2 ^ (f.precision - 1) * (den * 2 ^ s) := by ring
        _ ≤ num := hplace ▸ hlow
    · rw [Nat.div_lt_iff_lt_mul hden, Nat.pow_add]
      calc num < 2 ^ f.precision * (den * 2 ^ s) := hplace ▸ hhigh
        _ = 2 ^ f.precision * 2 ^ s * den := by ring
  simp only [roundUnits, hshift, Nat.shiftLeft_eq, ← hplace, nearest_eq hpos hbelow habove heven]

end Format

end Binary

namespace Decimal

open Binary (Format)

/-! ### Intervals -/

/-- A rational number in an interval, at one of its ends only if it is closed. -/
def Interval.Mem (i : Interval) (x : ℚ) : Prop :=
  (i.low : ℚ) / i.den ≤ x ∧ x ≤ i.high / i.den ∧
    (x = i.low / i.den ∨ x = i.high / i.den → i.closed = true)

theorem Interval.contains_iff_le (i : Interval) (num d : ℕ) :
    i.contains num d = true ↔ i.low * d ≤ num * i.den ∧ num * i.den ≤ i.high * d ∧
      (num * i.den = i.low * d ∨ num * i.den = i.high * d → i.closed = true) := by
  rw [contains]
  cases i.closed with
  | true => simp
  | false =>
      simp only [Bool.false_eq_true, if_false, Bool.and_eq_true, decide_eq_true_eq, imp_false]
      omega

theorem Interval.contains_iff (i : Interval) (hi : 0 < i.den) {num d : ℕ} (hd : 0 < d) :
    i.contains num d = true ↔ i.Mem (num / d) := by
  have hi' : (0 : ℚ) < i.den := by exact_mod_cast hi
  have hd' : (0 : ℚ) < d := by exact_mod_cast hd
  rw [contains_iff_le, Mem, div_le_div_iff₀ hi' hd', div_le_div_iff₀ hd' hi',
    div_eq_div_iff hd'.ne' hi'.ne', div_eq_div_iff hd'.ne' hi'.ne']
  norm_cast

/-- How far below a number its rounding interval begins, in quarters of a unit: above a power of two
the numbers are twice as far apart as below it. -/
def reachBelow (f : Format) (m s : ℕ) : ℕ :=
  if 0 < s ∧ m = 2 ^ (f.precision - 1) then 2 ^ s else 2 * 2 ^ s

theorem roundingInterval_significand {f : Format} (hp : 0 < f.precision) {m s : ℕ}
    (hm : m < 2 ^ f.precision) (hs : s = 0 ∨ 2 ^ (f.precision - 1) ≤ m) :
    roundingInterval f (m * 2 ^ s) =
      ⟨4 * (m * 2 ^ s) - reachBelow f m s, 4 * (m * 2 ^ s) + 2 * 2 ^ s, 4 * f.one, m % 2 == 0⟩ := by
  have hpos := Nat.two_pow_pos s
  have hpower : m * 2 ^ s = 2 ^ (f.precision - 1 + s) ↔ m = 2 ^ (f.precision - 1) := by
    rw [Nat.pow_add, Nat.mul_left_inj hpos.ne']
  simp only [roundingInterval, Format.shift_significand hp hm hs, Nat.shiftLeft_eq, Nat.one_mul,
    Nat.shiftRight_eq_div_pow, Nat.mul_div_cancel m hpos, reachBelow, hpower]

theorem mem_roundingInterval_iff {f : Format} (hp : 0 < f.precision) {m s num den : ℕ}
    (hm : m < 2 ^ f.precision) (hs : s = 0 ∨ 2 ^ (f.precision - 1) ≤ m) (hden : 0 < den) :
    (roundingInterval f (m * 2 ^ s)).Mem (num / (den * f.one : ℕ)) ↔
      (4 * (m * 2 ^ s) - reachBelow f m s) * den ≤ 4 * num ∧
        4 * num ≤ (4 * (m * 2 ^ s) + 2 * 2 ^ s) * den ∧
        (4 * num = (4 * (m * 2 ^ s) - reachBelow f m s) * den ∨
          4 * num = (4 * (m * 2 ^ s) + 2 * 2 ^ s) * den → m % 2 = 0) := by
  have hone := f.one_pos
  have hquarters : num * (4 * f.one) = 4 * num * f.one := by ring
  have hend : ∀ k : ℕ, k * (den * f.one) = k * den * f.one := fun k => (Nat.mul_assoc _ _ _).symm
  rw [← Interval.contains_iff _ (by simp [roundingInterval_significand hp hm hs, hone])
    (Nat.mul_pos hden hone), Interval.contains_iff_le, roundingInterval_significand hp hm hs]
  simp only [hquarters, hend, Nat.mul_le_mul_right_iff hone, Nat.mul_left_inj hone.ne', beq_iff_eq]

/-- Just below a power of two, where the last place is half as large. -/
theorem roundUnits_of_below {f : Format} (hp : 0 < f.precision) {k num den place : ℕ}
    (hden : 0 < den) (hplace : place = den * 2 ^ (k + 1))
    (hless : num < 2 ^ (f.precision - 1) * place)
    (hlow : 4 * (2 ^ (f.precision - 1) * place) ≤ 4 * num + place) :
    f.roundUnits num den = 2 ^ (f.precision - 1) * 2 ^ (k + 1) := by
  obtain ⟨m, hm⟩ : ∃ m, m = 2 ^ (f.precision - 1) := ⟨_, rfl⟩
  obtain ⟨half, hhalf⟩ : ∃ half, half = den * 2 ^ k := ⟨_, rfl⟩
  have htwice : place = 2 * half := by
    rw [hplace, hhalf]
    ring
  have hfull : 2 ^ f.precision = 2 * m := hm ▸ Format.two_pow_precision hp
  have hmany : half ≤ m * half :=
    Nat.le_mul_of_pos_left _ (hm ▸ Nat.two_pow_pos _)
  have hsplit : m * place = 2 * (m * half) := by
    rw [htwice]
    ring
  have hdouble : 2 * m * half = 2 * (m * half) := Nat.mul_assoc _ _ _
  rw [← hm] at hless hlow ⊢
  have hunits : m * 2 ^ (k + 1) = 2 * m * 2 ^ k := by ring
  rw [hunits]
  refine Format.roundUnits_eq hp hden hhalf (.inr ?_) ?_ ?_ ?_ fun _ => Nat.mul_mod_right 2 m
  · rw [← hm]
    omega
  · rw [hfull]
    omega
  · omega
  · omega

theorem reachBelow_mul {f : Format} {m s den place : ℕ} (hplace : place = den * 2 ^ s) :
    reachBelow f m s * den = if 0 < s ∧ m = 2 ^ (f.precision - 1) then place else 2 * place := by
  rw [reachBelow, hplace]
  split
  · exact Nat.mul_comm _ _
  · ring

/-- The rounding interval in terms of the last place. -/
theorem bounds_of_mem_roundingInterval {f : Format} (hp : 0 < f.precision) {m s num den place : ℕ}
    (hm : m < 2 ^ f.precision) (hs : s = 0 ∨ 2 ^ (f.precision - 1) ≤ m) (hden : 0 < den)
    (hplace : place = den * 2 ^ s)
    (h : (roundingInterval f (m * 2 ^ s)).Mem (num / (den * f.one : ℕ))) :
    4 * (m * place) ≤ 4 * num + reachBelow f m s * den ∧
      4 * num ≤ 4 * (m * place) + 2 * place ∧
      (4 * (m * place) = 4 * num + reachBelow f m s * den ∨
        4 * num = 4 * (m * place) + 2 * place → m % 2 = 0) := by
  obtain ⟨hlow, hhigh, heven⟩ := (mem_roundingInterval_iff hp hm hs hden).1 h
  have hhighest : (4 * (m * 2 ^ s) + 2 * 2 ^ s) * den = 4 * (m * place) + 2 * place := by
    rw [hplace]
    ring
  have hwhole : 4 * (m * 2 ^ s) * den = 4 * (m * place) := by
    rw [hplace]
    ring
  rw [hhighest] at hhigh heven
  rw [Nat.sub_mul, hwhole] at hlow heven
  refine ⟨by omega, hhigh, fun htie => heven ?_⟩
  omega

/-- A quotient is rounded to a number that is at most half a place away, and if half a place away,
to an even one. -/
theorem roundUnits_of_bounds {f : Format} (hp : 0 < f.precision) {m s num den place : ℕ}
    (hm : m < 2 ^ f.precision) (hs : s = 0 ∨ 2 ^ (f.precision - 1) ≤ m) (hden : 0 < den)
    (hplace : place = den * 2 ^ s) (hlow : 4 * (m * place) ≤ 4 * num + reachBelow f m s * den)
    (hhigh : 4 * num ≤ 4 * (m * place) + 2 * place)
    (heven : 4 * (m * place) = 4 * num + reachBelow f m s * den ∨
      4 * num = 4 * (m * place) + 2 * place → m % 2 = 0) :
    f.roundUnits num den = m * 2 ^ s := by
  have hpos : 0 < place := hplace ▸ Nat.mul_pos hden (Nat.two_pow_pos s)
  rw [reachBelow_mul hplace] at hlow heven
  have hinside : num < 2 ^ f.precision * place := by
    have hlast : (m + 1) * place ≤ 2 ^ f.precision * place := Nat.mul_le_mul_right _ hm
    rw [Nat.succ_mul] at hlast
    omega
  -- At a power of two the interval reaches below into numbers with a smaller last place.
  by_cases hboundary : 0 < s ∧ m = 2 ^ (f.precision - 1)
  · rw [if_pos hboundary] at hlow heven
    rcases Nat.lt_or_ge num (m * place) with hless | hmore
    · obtain ⟨k, rfl⟩ := Nat.exists_eq_add_one_of_ne_zero hboundary.1.ne'
      rw [hboundary.2] at hless hlow ⊢
      exact roundUnits_of_below hp hden hplace hless hlow
    · refine Format.roundUnits_eq hp hden hplace (.inr ?_) hinside ?_ ?_ fun htie => ?_
      · rw [← hboundary.2]
        exact hmore
      · omega
      · omega
      · exact heven (by omega)
  · rw [if_neg hboundary] at hlow heven
    refine Format.roundUnits_eq hp hden hplace ?_ hinside ?_ ?_ fun htie => ?_
    · refine (Nat.eq_zero_or_pos s).imp_right fun hshifted => ?_
      have hgreater : 2 ^ (f.precision - 1) + 1 ≤ m :=
        Nat.lt_of_le_of_ne (hs.resolve_left hshifted.ne') fun heq =>
          hboundary ⟨hshifted, heq.symm⟩
      have hmany := Nat.mul_le_mul_right place hgreater
      rw [Nat.succ_mul] at hmany
      omega
    · omega
    · omega
    · exact heven (by omega)

/-- What the rounding interval of a number contains is rounded to it. -/
theorem roundUnits_of_mem {f : Format} (hp : 0 < f.precision) {units num den : ℕ}
    (hheld : f.Holds units) (hden : 0 < den)
    (h : (roundingInterval f units).Mem (num / (den * f.one : ℕ))) :
    f.roundUnits num den = units := by
  obtain ⟨-, m, s, rfl, hm, hs⟩ := hheld
  obtain ⟨hlow, hhigh, heven⟩ := bounds_of_mem_roundingInterval hp hm hs hden rfl h
  exact roundUnits_of_bounds hp hm hs hden rfl hlow hhigh heven

end Decimal

end Scriptlet
