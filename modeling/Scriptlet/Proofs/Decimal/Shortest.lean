import Mathlib.Algebra.Order.Field.Power
import Mathlib.Algebra.Order.Floor.Semifield
import Mathlib.Data.Nat.Cast.Field
import Mathlib.Data.Rat.Floor
import Mathlib.Tactic.FieldSimp
import Mathlib.Tactic.Positivity
import Scriptlet.Proofs.Binary.Rounding
import Scriptlet.Proofs.Decimal.Digits

namespace Scriptlet.Decimal

/-!
# The shortest decimal is found

On the grid of one digit more than the format has bits, the decimal just below a number rounds to
it, so the search ends there at the latest. What it finds is a decimal that rounds to the number,
with a leading digit that is not zero.
-/

open Binary (Format)

/-- A decimal with a leading digit other than zero. -/
structure Normal (d : Decimal) : Prop where
  digit : ∀ x ∈ d.digits, x < 10
  leading : ∃ x rest, d.digits = x :: rest ∧ x ≠ 0

/-! ### Grids -/

theorem ten_zpow (e : ℤ) : (10 : ℚ) ^ e = (tenTo e.toNat : ℚ) / tenTo (-e).toNat := by
  simp only [tenTo, Nat.pow_eq, Nat.cast_pow, Nat.cast_ofNat]
  rcases Int.le_total 0 e with he | he
  · obtain ⟨n, rfl⟩ := Int.eq_ofNat_of_zero_le he
    simp
  · obtain ⟨n, hn⟩ := Int.eq_ofNat_of_zero_le (Int.neg_nonneg_of_nonpos he)
    obtain rfl : e = -(n : ℤ) := by omega
    simp

theorem tenTo_pos (n : ℕ) : 0 < tenTo n :=
  Nat.pow_pos (by decide)

/-- The exponent of the leading digit of a quotient. -/
theorem leading_spec {num den : ℕ} (hnum : 0 < num) (hden : 0 < den) :
    (10 : ℚ) ^ leading num den ≤ num / den ∧ (num / den : ℚ) < 10 ^ (leading num den + 1) := by
  have hden' : (0 : ℚ) < den := by exact_mod_cast hden
  rw [le_div_iff₀ hden', div_lt_iff₀ hden', leading]
  split
  next hle =>
    have hq : num / den ≠ 0 := (Nat.div_pos hle hden).ne'
    have hexp : (digitCount (num / den) : ℤ) - 1 = (Nat.log 10 (num / den) : ℕ) := by
      rw [digitCount_eq]
      omega
    have hlow := Nat.pow_log_le_self 10 hq
    have hhigh := Nat.lt_pow_succ_log_self (b := 10) (by decide) (num / den)
    rw [Nat.le_div_iff_mul_le hden] at hlow
    rw [Nat.div_lt_iff_lt_mul hden] at hhigh
    rw [hexp, zpow_natCast, ← Nat.cast_succ, zpow_natCast]
    exact ⟨by exact_mod_cast hlow, by exact_mod_cast hhigh⟩
  next hlt =>
    have hq : (den - 1) / num ≠ 0 := (Nat.div_pos (by omega) hnum).ne'
    obtain ⟨k, hk⟩ : ∃ k, k = Nat.log 10 ((den - 1) / num) := ⟨_, rfl⟩
    have hlow := Nat.pow_log_le_self 10 hq
    have hhigh := Nat.lt_pow_succ_log_self (b := 10) (by decide) ((den - 1) / num)
    rw [← hk, Nat.le_div_iff_mul_le hnum] at hlow
    rw [← hk, Nat.div_lt_iff_lt_mul hnum, Nat.succ_eq_add_one] at hhigh
    have hexp : -(digitCount ((den - 1) / num) : ℤ) = -((k + 1 : ℕ) : ℤ) := by
      rw [digitCount_eq, hk]
    have hnext : -((k + 1 : ℕ) : ℤ) + 1 = -(k : ℤ) := by omega
    rw [hexp, hnext, zpow_neg, zpow_neg, zpow_natCast, zpow_natCast,
      inv_mul_le_iff₀ (by positivity), lt_inv_mul_iff₀ (by positivity)]
    constructor
    · have hle : den ≤ 10 ^ (k + 1) * num := by omega
      exact_mod_cast hle
    · have hlt : 10 ^ k * num < den := by omega
      exact_mod_cast hlt

section

variable {i : Interval} {num den : ℕ} {e : ℤ}

theorem div_grid (hden : 0 < den) (e : ℤ) :
    ((num * tenTo (-e).toNat : ℕ) : ℚ) / (den * tenTo e.toNat : ℕ) = num / den / 10 ^ e := by
  have hup : (tenTo e.toNat : ℚ) ≠ 0 := by exact_mod_cast (tenTo_pos _).ne'
  have hdown : (tenTo (-e).toNat : ℚ) ≠ 0 := by exact_mod_cast (tenTo_pos _).ne'
  have hden' : (den : ℚ) ≠ 0 := by exact_mod_cast hden.ne'
  rw [ten_zpow]
  push_cast
  field_simp

theorem floor_div_grid (hden : 0 < den) (e : ℤ) :
    num * tenTo (-e).toNat / (den * tenTo e.toNat) = ⌊(num / den / 10 ^ e : ℚ)⌋₊ := by
  rw [← div_grid hden, Nat.floor_div_eq_div]

theorem contains_grid (hi : 0 < i.den) (k : ℕ) (e : ℤ) :
    i.contains (k * tenTo e.toNat) (tenTo (-e).toNat) = true ↔ i.Mem (k * 10 ^ e) := by
  rw [i.contains_iff hi (tenTo_pos _), ten_zpow, Nat.cast_mul, mul_div_assoc]

/-- What is picked lies in the interval and is one of the two neighbours on the grid. -/
theorem pick_eq_some (hi : 0 < i.den) (hden : 0 < den) (hself : i.Mem (num / den)) {k : ℕ}
    (h : pick i num den e = some k) :
    i.Mem (k * 10 ^ e) ∧
      (k = ⌊(num / den / 10 ^ e : ℚ)⌋₊ ∨ k = ⌊(num / den / 10 ^ e : ℚ)⌋₊ + 1) := by
  have hten : (10 : ℚ) ^ e ≠ 0 := by positivity
  simp only [pick, floor_div_grid hden] at h
  split at h
  next hrest =>
    obtain rfl := Option.some.inj h
    refine ⟨?_, .inl rfl⟩
    have hexact : (⌊(num / den / 10 ^ e : ℚ)⌋₊ : ℚ) = num / den / 10 ^ e := by
      rw [← floor_div_grid hden, Nat.cast_div (Nat.dvd_of_mod_eq_zero hrest), div_grid hden]
      exact_mod_cast (Nat.mul_pos hden (tenTo_pos _)).ne'
    rwa [hexact, div_mul_cancel₀ _ hten]
  next =>
    split at h
    next habove =>
      obtain rfl := Option.some.inj h
      rw [Bool.and_eq_true, contains_grid hi] at habove
      exact ⟨habove.1, .inr rfl⟩
    next =>
      split at h
      next hbelow =>
        obtain rfl := Option.some.inj h
        rw [contains_grid hi] at hbelow
        exact ⟨hbelow, .inl rfl⟩
      next => cases h

/-- Something is picked if the interval has the lower neighbour. -/
theorem isSome_pick (hi : 0 < i.den) (hden : 0 < den)
    (h : i.Mem (⌊(num / den / 10 ^ e : ℚ)⌋₊ * 10 ^ e)) : (pick i num den e).isSome = true := by
  rw [← contains_grid hi] at h
  simp only [pick, floor_div_grid hden, h]
  split
  · rfl
  · split <;> rfl

end

/-! ### The search -/

section

variable {i : Interval} {num den : ℕ} {lead : ℤ}

/-- A multiplier on the grid of `count` digits has that many digits, or is the power of ten behind
them. -/
theorem floor_bounds {x : ℚ} (hlow : 10 ^ lead ≤ x) (hhigh : x < 10 ^ (lead + 1)) {count : ℕ}
    (hcount : 0 < count) :
    10 ^ (count - 1) ≤ ⌊x / 10 ^ (lead + 1 - count)⌋₊ ∧
      ⌊x / 10 ^ (lead + 1 - count)⌋₊ < 10 ^ count := by
  have hpos : (0 : ℚ) < 10 ^ (lead + 1 - count) := by positivity
  have hten : (10 : ℚ) ≠ 0 := by norm_num
  have hx : 0 ≤ x / 10 ^ (lead + 1 - count) := by
    have hleast : (0 : ℚ) < 10 ^ lead := by positivity
    exact div_nonneg (hleast.le.trans hlow) hpos.le
  constructor
  · rw [Nat.le_floor_iff hx, le_div_iff₀ hpos]
    push_cast
    rw [← zpow_natCast, ← zpow_add₀ hten]
    have hexp : ((count - 1 : ℕ) : ℤ) + (lead + 1 - count) = lead := by omega
    rwa [hexp]
  · rw [Nat.floor_lt hx, div_lt_iff₀ hpos]
    push_cast
    rw [← zpow_natCast, ← zpow_add₀ hten]
    have hexp : (count : ℤ) + (lead + 1 - count) = lead + 1 := by omega
    rwa [hexp]

/-- The decimal of a row with `count` digits. -/
theorem normal_digitsOf {k count : ℕ} (hcount : 0 < count) (hlow : 10 ^ (count - 1) ≤ k)
    (hhigh : k < 10 ^ count) (negative : Bool) (lead : ℤ) :
    Normal ⟨negative, digitsOf k, lead⟩ ∧
      magnitude ⟨negative, digitsOf k, lead⟩ = k * 10 ^ (lead + 1 - count) := by
  have hk : k ≠ 0 := ((Nat.pow_pos (by decide)).trans_le hlow).ne'
  have hlog : Nat.log 10 k = count - 1 := by
    refine Nat.log_eq_of_pow_le_of_lt_pow hlow ?_
    rwa [Nat.sub_add_cancel hcount]
  have hlength : (digitsOf k).length = count := by
    rw [length_digitsOf, digitCount_eq, hlog, Nat.sub_add_cancel hcount]
  refine ⟨⟨fun x hx => lt_ten_of_mem_digitsOf hx, ?_⟩, ?_⟩
  · have hhead := head?_digitsOf_ne hk
    cases hdigits : digitsOf k with
    | nil =>
        rw [hdigits] at hlength
        exact absurd hlength hcount.ne
    | cons x rest =>
        refine ⟨x, rest, rfl, ?_⟩
        rintro rfl
        rw [hdigits] at hhead
        exact hhead rfl
  · have hexp : lead - ((count : ℤ) - 1) = lead + 1 - count := by omega
    rw [magnitude, numberOf_digitsOf, hlength, hexp]

theorem normal_one (negative : Bool) (e : ℤ) :
    Normal ⟨negative, [1], e⟩ ∧ magnitude ⟨negative, [1], e⟩ = 10 ^ e := by
  refine ⟨⟨?_, 1, [], rfl, by decide⟩, ?_⟩
  · intro x hx
    obtain rfl := List.mem_singleton.1 hx
    decide
  · simp [magnitude, numberOf]

/-- A multiplier that is picked is the row of a decimal, or the next power of ten is one. -/
theorem exists_decimal_of_pick (hi : 0 < i.den) (hden : 0 < den) (hself : i.Mem (num / den))
    (hlow : (10 : ℚ) ^ lead ≤ num / den) (hhigh : (num / den : ℚ) < 10 ^ (lead + 1))
    (negative : Bool) {count k : ℕ} (hcount : 0 < count)
    (hpick : pick i num den (lead + 1 - count) = some k) :
    ∃ ds e, (if k = tenTo count then ([1], lead + 1) else (digitsOf k, lead)) = (ds, e) ∧
      Normal ⟨negative, ds, e⟩ ∧ i.Mem (magnitude ⟨negative, ds, e⟩) ∧
      (e = lead ∨ e = lead + 1) := by
  obtain ⟨hmem, hk⟩ := pick_eq_some hi hden hself hpick
  obtain ⟨hleast, hmost⟩ := floor_bounds hlow hhigh hcount
  by_cases hpower : k = tenTo count
  · obtain ⟨hnormal, hvalue⟩ := normal_one negative (lead + 1)
    have hten : (k : ℚ) * 10 ^ (lead + 1 - count) = 10 ^ (lead + 1) := by
      rw [hpower, tenTo, Nat.pow_eq]
      push_cast
      rw [← zpow_natCast, ← zpow_add₀ (by norm_num)]
      congr 1
      omega
    refine ⟨[1], lead + 1, if_pos hpower, hnormal, ?_, .inr rfl⟩
    rw [hvalue, ← hten]
    exact hmem
  · have hle : 10 ^ (count - 1) ≤ k := by omega
    have hne : k ≠ 10 ^ count := hpower
    have hlt : k < 10 ^ count := by omega
    obtain ⟨hnormal, hvalue⟩ := normal_digitsOf hcount hle hlt negative lead
    refine ⟨digitsOf k, lead, if_neg hpower, hnormal, ?_, .inl rfl⟩
    rw [hvalue]
    exact hmem

/-- What the search comes to, if the interval has the lower neighbour on the last grid. -/
theorem search_spec (hi : 0 < i.den) (hden : 0 < den) (hself : i.Mem (num / den))
    (hlow : (10 : ℚ) ^ lead ≤ num / den) (hhigh : (num / den : ℚ) < 10 ^ (lead + 1)) (last : ℕ)
    (hlast : i.Mem (⌊(num / den / 10 ^ (lead + 1 - last) : ℚ)⌋₊ * 10 ^ (lead + 1 - last)))
    (negative : Bool) (fuel count : ℕ) (hcount : 0 < count) (hfuel : count + fuel = last + 1)
    (hpos : 0 < fuel) :
    ∃ ds e, search i num den lead fuel count = (ds, e) ∧ Normal ⟨negative, ds, e⟩ ∧
      i.Mem (magnitude ⟨negative, ds, e⟩) ∧ (e = lead ∨ e = lead + 1) := by
  induction fuel generalizing count with
  | zero => exact absurd hpos (Nat.lt_irrefl 0)
  | succ fuel ih =>
      rw [search]
      cases hpick : pick i num den (lead + 1 - count) with
      | none =>
          rcases Nat.eq_zero_or_pos fuel with rfl | hmore
          · obtain rfl : count = last := by omega
            have hsome := isSome_pick hi hden hlast
            rw [hpick] at hsome
            cases hsome
          · exact ih (count + 1) (Nat.succ_pos count) (by omega) hmore
      | some k => exact exists_decimal_of_pick hi hden hself hlow hhigh negative hcount hpick

end

/-! ### The shortest decimal of a number -/

section

variable {f : Format} {units : ℕ}

/-- The rounding interval of a number begins by at least one part in `2 ^ (precision + 1)` below
it. -/
theorem le_reachBelow {m s : ℕ} (hp : 0 < f.precision) (hm : m < 2 ^ f.precision) :
    4 * (m * 2 ^ s) ≤ reachBelow f m s * 2 ^ (f.precision + 1) := by
  have hfull := Format.two_pow_precision hp
  have hpower : 2 ^ (f.precision + 1) = 4 * 2 ^ (f.precision - 1) := by
    rw [Nat.pow_succ, hfull]
    ring
  rw [reachBelow, hpower]
  split
  next h =>
    rw [h.2]
    exact Nat.le_of_eq (by ring)
  next =>
    have hle : m * 2 ^ s ≤ 2 * 2 ^ (f.precision - 1) * 2 ^ s :=
      Nat.mul_le_mul_right _ (by omega)
    calc 4 * (m * 2 ^ s) ≤ 4 * (2 * 2 ^ (f.precision - 1) * 2 ^ s) := Nat.mul_le_mul_left 4 hle
      _ = 2 * 2 ^ s * (4 * 2 ^ (f.precision - 1)) := by ring

/-- The rounding interval of a number contains what is below it by less than one part in
`2 ^ (precision + 1)`. -/
theorem mem_of_near (hp : 0 < f.precision) (hheld : f.Holds units) (hunits : units ≠ 0) {y : ℚ}
    (hlow : (units / f.one : ℚ) - units / f.one / 2 ^ (f.precision + 1) < y)
    (hhigh : y ≤ units / f.one) : (roundingInterval f units).Mem y := by
  obtain ⟨-, m, s, rfl, hm, hs⟩ := hheld
  have hone : (0 : ℚ) < f.one := by exact_mod_cast f.one_pos
  have hreach : reachBelow f m s ≤ 4 * (m * 2 ^ s) := by
    have hmany : 2 ^ s ≤ m * 2 ^ s :=
      Nat.le_of_dvd (Nat.pos_of_ne_zero hunits) (Nat.dvd_mul_left _ m)
    rw [reachBelow]
    split <;> omega
  have hpart : (4 * (m * 2 ^ s : ℕ) : ℚ) ≤ reachBelow f m s * 2 ^ (f.precision + 1) := by
    exact_mod_cast le_reachBelow hp hm
  have hpower : (0 : ℚ) < 2 ^ (f.precision + 1) := by positivity
  rw [roundingInterval_significand hp hm hs]
  generalize (m * 2 ^ s : ℕ) = u at *
  have hbelow : ((4 * u - reachBelow f m s : ℕ) : ℚ) / (4 * f.one : ℕ) < y := by
    refine lt_of_le_of_lt ?_ hlow
    rw [Nat.cast_sub hreach]
    push_cast
    rw [div_le_iff₀ (by positivity)]
    have hcancel : ((u : ℚ) / f.one - u / f.one / 2 ^ (f.precision + 1)) * (4 * f.one) =
        4 * u - 4 * u / 2 ^ (f.precision + 1) := by
      field_simp
    rw [hcancel]
    have hpart' := (div_le_iff₀ hpower).2 hpart
    linarith
  have habove : y < ((4 * u + 2 * 2 ^ s : ℕ) : ℚ) / (4 * f.one : ℕ) := by
    refine lt_of_le_of_lt hhigh ?_
    push_cast
    rw [div_lt_div_iff₀ hone (by positivity)]
    have hwide : (0 : ℚ) < 2 * 2 ^ s * f.one := by positivity
    linarith
  refine ⟨hbelow.le, habove.le, ?_⟩
  rintro (h | h)
  · exact absurd h hbelow.ne'
  · exact absurd h habove.ne

theorem two_pow_succ_le {n : ℕ} (hn : 0 < n) : 2 ^ (n + 1) ≤ 10 ^ n := by
  have hfive : 2 ≤ 5 ^ n := Nat.le_trans (by decide) (Nat.pow_le_pow_right (by decide) hn)
  calc 2 ^ (n + 1) = 2 * 2 ^ n := Nat.pow_succ'
    _ ≤ 5 ^ n * 2 ^ n := Nat.mul_le_mul_right _ hfive
    _ = 10 ^ n := (Nat.mul_pow 5 2 n).symm

/-- On a grid that is fine enough, the lower neighbour of a number rounds to it. -/
theorem mem_floor (hp : 0 < f.precision) (hheld : f.Holds units) (hunits : units ≠ 0) {grid : ℚ}
    (hpos : 0 < grid) (hfine : grid * 2 ^ (f.precision + 1) ≤ units / f.one) :
    (roundingInterval f units).Mem (⌊(units / f.one / grid : ℚ)⌋₊ * grid) := by
  apply mem_of_near hp hheld hunits
  · have hfloor := Nat.lt_floor_add_one (units / f.one / grid : ℚ)
    rw [div_lt_iff₀ hpos] at hfloor
    have hsmall := (le_div_iff₀ (by positivity)).2 hfine
    linarith
  · rw [← le_div_iff₀ hpos]
    exact Nat.floor_le (by positivity)

/-- The grid of one digit more than the format has bits is fine enough. -/
theorem grid_mul_le {x : ℚ} {lead : ℤ} {n : ℕ} (hn : 0 < n) (hx : 10 ^ lead ≤ x) :
    10 ^ (lead + 1 - (n + 1 : ℕ)) * 2 ^ (n + 1) ≤ x := by
  have hpowers : (2 ^ (n + 1) : ℚ) ≤ 10 ^ n := by exact_mod_cast two_pow_succ_le hn
  have hexp : lead + 1 - (n + 1 : ℕ) + n = lead := by omega
  calc (10 : ℚ) ^ (lead + 1 - (n + 1 : ℕ)) * 2 ^ (n + 1)
      ≤ 10 ^ (lead + 1 - (n + 1 : ℕ)) * 10 ^ n := mul_le_mul_of_nonneg_left hpowers (by positivity)
    _ = 10 ^ lead := by rw [← zpow_natCast, ← zpow_add₀ (by norm_num), hexp]
    _ ≤ x := hx

/-- The decimal of a number with a leading digit at or just above the number's own. -/
theorem ofUnits_spec (hp : 0 < f.precision) (hheld : f.Holds units) (hunits : units ≠ 0)
    (negative : Bool) :
    (ofUnits f negative units).Normal ∧ (ofUnits f negative units).negative = negative ∧
      (roundingInterval f units).Mem (ofUnits f negative units).magnitude ∧
      ((ofUnits f negative units).exponent = leading units f.one ∨
        (ofUnits f negative units).exponent = leading units f.one + 1) := by
  have hone := f.one_pos
  obtain ⟨hlow, hhigh⟩ := leading_spec (Nat.pos_of_ne_zero hunits) hone
  have hx : (0 : ℚ) < units / f.one := lt_of_lt_of_le (by positivity) hlow
  have hpart : (0 : ℚ) < units / f.one / 2 ^ (f.precision + 1) := by positivity
  have hself : (roundingInterval f units).Mem (units / f.one) :=
    mem_of_near hp hheld hunits (by linarith) le_rfl
  have hlast := mem_floor hp hheld hunits (by positivity) (grid_mul_le hp hlow)
  have hquarter : 0 < (roundingInterval f units).den := Nat.mul_pos (by decide) hone
  obtain ⟨ds, e, hsearch, hnormal, hmem, he⟩ := search_spec hquarter hone hself hlow hhigh
    (f.precision + 1) hlast negative (f.precision + 1) 1 Nat.one_pos (by omega) (Nat.succ_pos _)
  have heq : ofUnits f negative units = ⟨negative, ds, e⟩ := by
    rw [ofUnits, if_neg hunits, hsearch]
  rw [heq]
  exact ⟨hnormal, rfl, hmem, he⟩

end

end Scriptlet.Decimal
