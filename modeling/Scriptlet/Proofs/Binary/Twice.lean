import Scriptlet.Proofs.Binary.Rounding

namespace Scriptlet.Binary

/-!
# Rounding twice

A quotient that is rounded to a format with more precision first and then to the one that is asked
for is rounded to the same number as at once, unless the first rounding has moved it to the middle
between two neighbours.
-/

open Decimal (reachBelow reachBelow_mul roundUnits_of_bounds)

/-- A quotient is rounded to a whole number at most a half away, and if a half away to an even
one. -/
theorem nearest_spec {den : ℕ} (hden : 0 < den) (num : ℕ) :
    2 * (nearest num den * den) ≤ 2 * num + den ∧ 2 * num ≤ 2 * (nearest num den * den) + den ∧
      (2 * (nearest num den * den) = 2 * num + den ∨ 2 * num = 2 * (nearest num den * den) + den →
        nearest num den % 2 = 0) := by
  have hdiv := Nat.div_add_mod num den
  have hmod := Nat.mod_lt num hden
  rw [Nat.mul_comm] at hdiv
  have hsucc : (num / den + 1) * den = num / den * den + den := Nat.succ_mul _ _
  simp only [nearest]
  split
  · exact ⟨by omega, by omega, by omega⟩
  · split
    · exact ⟨by omega, by omega, by omega⟩
    · have hhalf : 2 * (num % den) = den := by omega
      obtain heven | hodd := Nat.mod_two_eq_zero_or_one (num / den)
      · rw [heven, Nat.add_zero]
        exact ⟨by omega, by omega, fun _ => heven⟩
      · rw [hodd]
        exact ⟨by omega, by omega, fun _ => by omega⟩

theorem nearest_mul {c : ℕ} (hc : 0 < c) (num den : ℕ) :
    nearest (num * c) (den * c) = nearest num den := by
  have hless : 2 * (num % den * c) < den * c ↔ 2 * (num % den) < den := by
    rw [← Nat.mul_assoc, Nat.mul_lt_mul_right hc]
  have hmore : den * c < 2 * (num % den * c) ↔ den < 2 * (num % den) := by
    rw [← Nat.mul_assoc, Nat.mul_lt_mul_right hc]
  simp only [nearest, Nat.mul_div_mul_right _ _ hc, Nat.mul_mod_mul_right, hless, hmore]

namespace Format

variable {f g : Format} {num den num' den' m s : ℕ}

theorem roundUnits_mul {c : ℕ} (hc : 0 < c) (num den : ℕ) :
    f.roundUnits (num * c) (den * c) = f.roundUnits num den := by
  have hscale (k : ℕ) : (den * c) <<< k = den <<< k * c := by
    rw [Nat.shiftLeft_eq, Nat.shiftLeft_eq]
    ring
  simp only [roundUnits, Nat.mul_div_mul_right _ _ hc, hscale, nearest_mul hc]

/-- Rounding looks at nothing but the quotient. -/
theorem roundUnits_congr (hden : 0 < den) (hden' : 0 < den') (h : num * den' = num' * den) :
    f.roundUnits num den = f.roundUnits num' den' := by
  rw [← roundUnits_mul hden', h, Nat.mul_comm den den', roundUnits_mul hden]

/-- The number `m * 2 ^ s` is the nearest one of the format to the quotient: it is at most half a
place away, and if half a place away, then even. -/
structure Near (f : Format) (num den m s : ℕ) : Prop where
  lt : m < 2 ^ f.precision
  normal : s = 0 ∨ 2 ^ (f.precision - 1) ≤ m
  low : 4 * (m * (den * 2 ^ s)) ≤ 4 * num + reachBelow f m s * den
  high : 4 * num ≤ 4 * (m * (den * 2 ^ s)) + 2 * (den * 2 ^ s)
  even : 4 * (m * (den * 2 ^ s)) = 4 * num + reachBelow f m s * den ∨
    4 * num = 4 * (m * (den * 2 ^ s)) + 2 * (den * 2 ^ s) → m % 2 = 0

theorem reachBelow_pos (f : Format) (m s : ℕ) : 0 < reachBelow f m s := by
  rw [reachBelow]
  split <;> positivity

theorem reachBelow_le (f : Format) (m s : ℕ) : reachBelow f m s ≤ 2 * 2 ^ s := by
  rw [reachBelow]
  split <;> omega

theorem Near.roundUnits_eq (hp : 0 < f.precision) (hden : 0 < den) (h : f.Near num den m s) :
    f.roundUnits num den = m * 2 ^ s :=
  roundUnits_of_bounds hp h.lt h.normal hden rfl h.low h.high h.even

theorem shift_spec (hp : 0 < f.precision) (units : ℕ) :
    (f.shift units = 0 ∨ 2 ^ (f.precision - 1 + f.shift units) ≤ units) ∧
      units < 2 ^ (f.precision + f.shift units) := by
  rw [shift, Nat.one_shiftLeft]
  split
  · next h => exact ⟨.inl rfl, h⟩
  · next h =>
      have hpos : units ≠ 0 := by
        have := Nat.two_pow_pos f.precision
        omega
      have hlog : f.precision ≤ units.log2 := (Nat.le_log2 hpos).2 (Nat.le_of_not_lt h)
      have hlow : f.precision - 1 + (units.log2 + 1 - f.precision) = units.log2 := by omega
      have hhigh : f.precision + (units.log2 + 1 - f.precision) = units.log2 + 1 := by omega
      rw [hlow, hhigh]
      exact ⟨.inr (Nat.log2_self_le hpos), Nat.lt_log2_self⟩

section

variable {q place : ℕ} (hplace : den * 2 ^ s = place) (hbelow : 2 * (q * place) ≤ 2 * num + place)

include hplace hbelow

theorem near_of_lt (habove : 2 * num ≤ 2 * (q * place) + place)
    (hlow : s = 0 ∨ 2 ^ (f.precision - 1) * place ≤ num) (hpos : 0 < place)
    (heven : 2 * (q * place) = 2 * num + place ∨ 2 * num = 2 * (q * place) + place → q % 2 = 0)
    (hlt : q < 2 ^ f.precision) : f.Near num den q s := by
  have hnormal : s = 0 ∨ 2 ^ (f.precision - 1) ≤ q := by
    refine hlow.imp_right fun hlow => ?_
    by_contra hless
    have := Nat.mul_le_mul_right place (Nat.lt_of_not_le hless)
    rw [Nat.succ_mul] at this
    omega
  -- At a power of two nothing is rounded up from below.
  have hboundary (h : 0 < s ∧ q = 2 ^ (f.precision - 1)) : q * place ≤ num := by
    rw [h.2]
    exact hlow.resolve_left h.1.ne'
  have hreach := reachBelow_mul (f := f) (m := q) hplace.symm
  refine ⟨hlt, hnormal, ?_, ?_, ?_⟩
  · rw [hplace, hreach]
    split
    · next h =>
        have := hboundary h
        omega
    · omega
  · rw [hplace]
    omega
  · rw [hplace, hreach]
    intro htie
    split at htie
    · next h =>
        have := hboundary h
        exact heven (by omega)
    · exact heven (by omega)

/-- Above the last significand comes the first one of the next place. -/
theorem near_of_full (hp : 1 < f.precision) (hq : q = 2 ^ f.precision) (hhigh : num < q * place) :
    f.Near num den (2 ^ (f.precision - 1)) (s + 1) := by
  obtain ⟨half, hhalf⟩ : ∃ half, half = 2 ^ (f.precision - 1) := ⟨_, rfl⟩
  have hpos : 0 < half := hhalf ▸ Nat.two_pow_pos _
  have hfull : q = 2 * half := by rw [hq, hhalf, ← two_pow_precision (by omega)]
  have hplace' : den * 2 ^ (s + 1) = 2 * place := by
    rw [← hplace]
    ring
  have hsplit : q * place = half * (2 * place) := by
    rw [hfull]
    ring
  have hmod : half % 2 = 0 := by
    rw [hhalf, ← Nat.sub_add_cancel (show 1 ≤ f.precision - 1 by omega), Nat.pow_succ]
    exact Nat.mul_mod_left _ _
  have hreach : reachBelow f half (s + 1) * den = 2 * place := by
    rw [reachBelow_mul hplace'.symm, if_pos ⟨s.succ_pos, hhalf⟩]
  rw [hsplit] at hhigh hbelow
  rw [← hhalf]
  refine ⟨by omega, .inr hhalf.ge, ?_, ?_, fun _ => hmod⟩
  · rw [hplace', hreach]
    omega
  · rw [hplace']
    omega

end

/-- Rounding gives the nearest number. -/
theorem exists_near (hp : 1 < f.precision) (hden : 0 < den) (num : ℕ) :
    ∃ m s, f.roundUnits num den = m * 2 ^ s ∧ f.Near num den m s := by
  obtain ⟨hlow, hhigh⟩ := f.shift_spec (by omega) (num / den)
  obtain ⟨s, hs⟩ : ∃ s, f.shift (num / den) = s := ⟨_, rfl⟩
  rw [hs, Nat.le_div_iff_mul_le hden, Nat.pow_add, Nat.mul_assoc, Nat.mul_comm (2 ^ s)] at hlow
  rw [hs, Nat.div_lt_iff_lt_mul hden, Nat.pow_add, Nat.mul_assoc, Nat.mul_comm (2 ^ s)] at hhigh
  have hround : f.roundUnits num den = nearest num (den * 2 ^ s) * 2 ^ s := by
    simp only [roundUnits, hs, Nat.shiftLeft_eq]
  have hpos : 0 < den * 2 ^ s := Nat.mul_pos hden (Nat.two_pow_pos s)
  obtain ⟨hbelow, habove, heven⟩ := nearest_spec hpos num
  generalize nearest num (den * 2 ^ s) = q at hround hbelow habove heven
  have hq : q ≤ 2 ^ f.precision := by
    by_contra hq
    have := Nat.mul_le_mul_right (den * 2 ^ s) (Nat.lt_of_not_le hq)
    rw [Nat.succ_mul] at this
    omega
  obtain hlt | hfull := Nat.lt_or_eq_of_le hq
  · exact ⟨q, s, hround, near_of_lt rfl hbelow habove hlow hpos heven hlt⟩
  · refine ⟨_, s + 1, ?_, near_of_full rfl hbelow hp hfull (hfull ▸ hhigh)⟩
    rw [hround, hfull, two_pow_precision (by omega)]
    ring

/-! ### Between two numbers -/

/-- The quotient is in the middle between two neighbouring numbers of the format. -/
def IsTie (f : Format) (num den : ℕ) : Prop :=
  ∃ m s, m < 2 ^ f.precision ∧ (s = 0 ∨ 2 ^ (f.precision - 1) ≤ m) ∧
    2 * num = (2 * m + 1) * (den * 2 ^ s)

section

variable {b r : ℕ} (hp : 0 < f.precision) (h : f.Near num den m s) (hb : b < 2 ^ f.precision)

include hp h hb

/-- The next larger number is at least a place away. -/
theorem Near.add_place_le (hless : m * 2 ^ s < b * 2 ^ r) : m * 2 ^ s + 2 ^ s ≤ b * 2 ^ r := by
  obtain hr | hr := Nat.lt_or_ge r s
  · have hlast := significand_lt hb r
    have hfirst := le_significand (h.normal.resolve_left (by omega)) s
    have hpow := Nat.pow_le_pow_right Nat.zero_lt_two
      (show f.precision + r ≤ f.precision - 1 + s by omega)
    omega
  · obtain ⟨k, rfl⟩ := Nat.exists_eq_add_of_le hr
    have hunits : b * 2 ^ (s + k) = b * 2 ^ k * 2 ^ s := by ring
    rw [hunits] at hless ⊢
    rw [← Nat.succ_mul]
    exact Nat.mul_le_mul_right _ (Nat.lt_of_mul_lt_mul_right hless)

/-- The next smaller number is at least twice as far away as what is rounded. -/
theorem Near.add_reach_le (hless : b * 2 ^ r < m * 2 ^ s) :
    4 * (b * 2 ^ r) + 2 * reachBelow f m s ≤ 4 * (m * 2 ^ s) := by
  obtain hr | hr := Nat.lt_or_ge r s
  · obtain ⟨j, rfl⟩ := Nat.exists_eq_add_one_of_ne_zero (show s ≠ 0 by omega)
    have hnormal := h.normal.resolve_left j.succ_ne_zero
    have hlast : (b + 1) * 2 ^ j ≤ 2 ^ f.precision * 2 ^ j := Nat.mul_le_mul_right _ hb
    have hgrow : b * 2 ^ r ≤ b * 2 ^ j :=
      Nat.mul_le_mul_left _ (Nat.pow_le_pow_right Nat.zero_lt_two (by omega))
    have hfirst : 2 ^ f.precision * 2 ^ j = 2 ^ (f.precision - 1) * 2 ^ (j + 1) := by
      rw [two_pow_precision hp]
      ring
    rw [Nat.succ_mul, hfirst] at hlast
    rw [reachBelow]
    split
    · next hboundary =>
        rw [hboundary.2, Nat.pow_succ 2 j]
        rw [Nat.pow_succ 2 j] at hlast
        omega
    · next hboundary =>
        have hmany : (2 ^ (f.precision - 1) + 1) * 2 ^ (j + 1) ≤ m * 2 ^ (j + 1) :=
          Nat.mul_le_mul_right _ (by omega)
        rw [Nat.succ_mul] at hmany
        omega
  · obtain ⟨k, rfl⟩ := Nat.exists_eq_add_of_le hr
    have hunits : b * 2 ^ (s + k) = b * 2 ^ k * 2 ^ s := by ring
    rw [hunits] at hless ⊢
    have hmany : (b * 2 ^ k + 1) * 2 ^ s ≤ m * 2 ^ s :=
      Nat.mul_le_mul_right _ (Nat.lt_of_mul_lt_mul_right hless)
    have hreach := reachBelow_le f m s
    rw [Nat.succ_mul] at hmany
    omega

/-- No number of the format lies between a quotient and what it is rounded to. -/
theorem Near.eq_of_between (hden : 0 < den)
    (hbetween : num ≤ b * 2 ^ r * den ∧ b * 2 ^ r ≤ m * 2 ^ s ∨
      b * 2 ^ r * den ≤ num ∧ m * 2 ^ s ≤ b * 2 ^ r) : b * 2 ^ r = m * 2 ^ s := by
  have hlow := h.low
  have hhigh := h.high
  obtain ⟨hnum, hle⟩ | ⟨hnum, hle⟩ := hbetween
  · by_contra hne
    have hgap := h.add_reach_le hp hb (Nat.lt_of_le_of_ne hle hne)
    have hpos : 0 < reachBelow f m s * den := Nat.mul_pos (reachBelow_pos f m s) hden
    have := Nat.mul_le_mul_right den hgap
    linarith
  · by_contra hne
    have hgap := h.add_place_le hp hb (Nat.lt_of_le_of_ne hle (Ne.symm hne))
    have hpos : 0 < den * 2 ^ s := Nat.mul_pos hden (Nat.two_pow_pos s)
    have := Nat.mul_le_mul_right den hgap
    linarith

end

/-- Where the quotients begin that are rounded to a number is the middle between the number and the
one below it. -/
theorem Near.exists_below (hp : 0 < f.precision) (h : f.Near num den m s) (hm : 0 < m) :
    ∃ n r, n < 2 ^ f.precision ∧ (r = 0 ∨ 2 ^ (f.precision - 1) ≤ n) ∧
      ∀ d, 4 * (m * (d * 2 ^ s)) = 2 * ((2 * n + 1) * (d * 2 ^ r)) + reachBelow f m s * d := by
  have hlt := h.lt
  by_cases hboundary : 0 < s ∧ m = 2 ^ (f.precision - 1)
  · obtain ⟨j, rfl⟩ := Nat.exists_eq_add_one_of_ne_zero hboundary.1.ne'
    have hfull := two_pow_precision hp
    rw [← hboundary.2] at hfull
    refine ⟨2 * m - 1, j, by omega, .inr (by omega), fun d => ?_⟩
    have htwice : 2 * (2 * m - 1) + 1 = 4 * m - 1 := by omega
    have hless : d * 2 ^ j ≤ 4 * m * (d * 2 ^ j) := Nat.le_mul_of_pos_left _ (by omega)
    rw [reachBelow, if_pos hboundary, htwice, Nat.sub_mul, Nat.one_mul]
    have hplace : 4 * (m * (d * 2 ^ (j + 1))) = 2 * (4 * m * (d * 2 ^ j)) := by ring
    have hreach : 2 ^ (j + 1) * d = 2 * (d * 2 ^ j) := by ring
    omega
  · obtain ⟨n, rfl⟩ := Nat.exists_eq_add_one_of_ne_zero hm.ne'
    have hnormal := h.normal
    refine ⟨n, s, by omega, by omega, fun d => ?_⟩
    rw [reachBelow, if_neg hboundary]
    ring

/-- If a number is nearest to one quotient and not to another, a middle between two numbers lies
between the quotients. -/
theorem Near.exists_tie (hp : 0 < f.precision) (hden' : 0 < den') (h : f.Near num den m s)
    (hne : ¬f.Near num' den' m s) :
    ∃ n r, n < 2 ^ f.precision ∧ (r = 0 ∨ 2 ^ (f.precision - 1) ≤ n) ∧
      (2 * num ≤ (2 * n + 1) * (den * 2 ^ r) ∧ (2 * n + 1) * (den' * 2 ^ r) ≤ 2 * num' ∨
        (2 * n + 1) * (den * 2 ^ r) ≤ 2 * num ∧ 2 * num' ≤ (2 * n + 1) * (den' * 2 ^ r)) := by
  have houtside : 4 * (m * (den' * 2 ^ s)) + 2 * (den' * 2 ^ s) ≤ 4 * num' ∨
      4 * num' + reachBelow f m s * den' ≤ 4 * (m * (den' * 2 ^ s)) := by
    by_contra hinside
    exact hne ⟨h.lt, h.normal, by omega, by omega, fun htie => by omega⟩
  have hlow := h.low
  have hhigh := h.high
  obtain habove | hbelow := houtside
  · refine ⟨m, s, h.lt, h.normal, .inl ⟨?_, ?_⟩⟩
    · linarith
    · linarith
  · by_cases hm : 0 < m
    · obtain ⟨n, r, hn, hr, hend⟩ := h.exists_below hp hm
      have := hend den
      have := hend den'
      exact ⟨n, r, hn, hr, .inr ⟨by omega, by omega⟩⟩
    · obtain rfl : m = 0 := by omega
      have := Nat.mul_pos (reachBelow_pos f 0 s) hden'
      omega

/-- Rounding twice is rounding once, unless the first rounding moves the quotient to the middle
between two numbers. -/
theorem roundUnits_twice (hp : 1 < f.precision) (hg : f.precision < g.precision) {k : ℕ}
    (hk : 0 < k) (hden : 0 < den) (num : ℕ) :
    f.roundUnits (g.roundUnits (num * 2 ^ k) den) (2 ^ k) = f.roundUnits num den ∨
      f.IsTie (g.roundUnits (num * 2 ^ k) den) (2 ^ k) ∧
        g.roundUnits (num * 2 ^ k) den * den ≠ num * 2 ^ k := by
  obtain ⟨m, s, hround, hnear⟩ := exists_near hp hden num
  obtain ⟨a, t, hfirst, hclose⟩ := exists_near (f := g) (by omega) hden (num * 2 ^ k)
  have hpow := Nat.two_pow_pos k
  rw [hfirst, hround]
  by_cases hsame : f.Near (a * 2 ^ t) (2 ^ k) m s
  · exact .inl (hsame.roundUnits_eq (by omega) hpow)
  by_cases hexact : a * 2 ^ t * den = num * 2 ^ k
  · exact .inl ((roundUnits_congr hpow hden hexact).trans hround)
  refine .inr ⟨?_, hexact⟩
  obtain ⟨n, r, hn, hr, hbetween⟩ := hnear.exists_tie (by omega) hpow hsame
  -- The middle between two numbers is itself a number of the first format.
  obtain ⟨j, rfl⟩ := Nat.exists_eq_add_one_of_ne_zero hk.ne'
  have hmiddle : (2 * n + 1) * (2 ^ (j + 1) * 2 ^ r) = 2 * ((2 * n + 1) * 2 ^ (r + j)) := by ring
  have hheld : 2 * n + 1 < 2 ^ g.precision := by
    have := Nat.pow_le_pow_right Nat.zero_lt_two hg
    rw [Nat.succ_eq_add_one, Nat.pow_succ] at this
    omega
  have heq : (2 * n + 1) * 2 ^ (r + j) = a * 2 ^ t := by
    refine hclose.eq_of_between (by omega) hheld hden ?_
    rw [hmiddle] at hbetween
    refine hbetween.imp (fun h => ⟨?_, by omega⟩) fun h => ⟨?_, by omega⟩
    · have := Nat.mul_le_mul_right (2 ^ j) h.1
      have hscale : (2 * n + 1) * (den * 2 ^ r) * 2 ^ j = (2 * n + 1) * 2 ^ (r + j) * den := by ring
      have hnum : 2 * num * 2 ^ j = num * 2 ^ (j + 1) := by ring
      omega
    · have := Nat.mul_le_mul_right (2 ^ j) h.1
      have hscale : (2 * n + 1) * (den * 2 ^ r) * 2 ^ j = (2 * n + 1) * 2 ^ (r + j) * den := by ring
      have hnum : 2 * num * 2 ^ j = num * 2 ^ (j + 1) := by ring
      omega
  exact ⟨n, r, hn, hr, by rw [hmiddle, heq]⟩

/-! ### How large the result is -/

theorem roundUnits_mul_le (hp : 1 < f.precision) (hden : 0 < den) (num : ℕ) :
    f.roundUnits num den * den ≤ 2 * num := by
  obtain ⟨m, s, hround, hnear⟩ := exists_near hp hden num
  obtain rfl | hm := Nat.eq_zero_or_pos m
  · rw [hround, Nat.zero_mul, Nat.zero_mul]
    exact Nat.zero_le _
  · have hreach : reachBelow f m s ≤ 2 * (m * 2 ^ s) :=
      (reachBelow_le f m s).trans (Nat.mul_le_mul_left _ (Nat.le_mul_of_pos_left _ hm))
    have := Nat.mul_le_mul_right den hreach
    rw [hround]
    linarith [hnear.low]

theorem lt_roundUnits_mul (hp : 1 < f.precision) (hden : 0 < den) (num : ℕ) :
    num < (2 * f.roundUnits num den + 1) * den := by
  obtain ⟨m, s, hround, hnear⟩ := exists_near hp hden num
  have hplace : 2 ^ s ≤ m * 2 ^ s + 1 := by
    obtain rfl | hs := hnear.normal
    · exact Nat.le_add_left _ _
    · exact (Nat.le_mul_of_pos_left _ ((Nat.two_pow_pos _).trans_le hs)).trans (Nat.le_succ _)
  have := Nat.mul_le_mul_right den hplace
  rw [hround]
  linarith [hnear.high]

/-- The numbers of a format are those that it rounds to. -/
theorem holds_roundUnits (hp : 1 < f.precision) (hden : 0 < den)
    (h : f.roundUnits num den ≤ f.largest) : f.Holds (f.roundUnits num den) := by
  obtain ⟨m, s, hround, hnear⟩ := exists_near hp hden num
  exact ⟨h, m, s, hround, hnear.lt, hnear.normal⟩

theorem IsTie.mul {c : ℕ} (h : f.IsTie num den) : f.IsTie (num * c) (den * c) := by
  obtain ⟨m, s, hm, hs, hmiddle⟩ := h
  refine ⟨m, s, hm, hs, ?_⟩
  rw [← Nat.mul_assoc, hmiddle]
  ring

end Format

theorem one_double : double.one = single.one * 2 ^ 925 := by
  decide +kernel

/-- What is beyond the numbers of double precision is beyond those of single precision. -/
theorem largest_double : 2 ^ 926 * (2 * single.largest + 1) ≤ double.largest := by
  decide +kernel

/-- Through double precision a quotient comes to the same number of single precision as at once,
unless it comes to the middle between two of them and is moved by that. -/
theorem convert_ofRatio {den : ℕ} (hden : 0 < den) (negative : Bool) (num : ℕ) :
    double.convert single (double.ofRatio negative num den) = single.ofRatio negative num den ∨
      ∃ units, double.ofRatio negative num den = .finite negative units ∧
        single.IsTie (units * single.one) double.one ∧ units * den ≠ num * double.one := by
  have hnum : num * double.one = num * single.one * 2 ^ 925 := by
    rw [one_double, Nat.mul_assoc]
  have htwice := Format.roundUnits_twice (f := single) (g := double) (k := 925) (by decide)
    (by decide) (by decide) hden (num * single.one)
  have hlow := Format.roundUnits_mul_le (f := double) (by decide) hden (num * double.one)
  rw [← hnum] at htwice
  simp only [Format.ofRatio, Format.ofUnits]
  generalize double.roundUnits (num * double.one) den = units at htwice hlow
  split
  · next hle =>
      have hsame : single.roundUnits (units * single.one) double.one =
          single.roundUnits units (2 ^ 925) := by
        rw [one_double, Nat.mul_comm single.one]
        exact Format.roundUnits_mul single.one_pos _ _
      simp only [Format.convert, Format.ofRatio, Format.ofUnits, hsame]
      obtain heq | ⟨htie, hne⟩ := htwice
      · exact .inl (by rw [heq])
      · refine .inr ⟨units, rfl, ?_, hne⟩
        rw [one_double, Nat.mul_comm single.one]
        exact htie.mul
  · next hlarge =>
      refine .inl ?_
      have hhigh := Format.lt_roundUnits_mul (f := single) (by decide) hden (num * single.one)
      have hinfinite : ¬single.roundUnits (num * single.one) den ≤ single.largest := by
        intro hle
        refine hlarge (Nat.le_of_mul_le_mul_right ?_ hden)
        have hbound : (2 * single.roundUnits (num * single.one) den + 1) * den ≤
            (2 * single.largest + 1) * den :=
          Nat.mul_le_mul_right _ (Nat.succ_le_succ (Nat.mul_le_mul_left 2 hle))
        calc units * den ≤ 2 * (num * double.one) := hlow
          _ = 2 ^ 926 * (num * single.one) := by
            rw [hnum, Nat.pow_succ' (n := 925), Nat.mul_comm _ (2 ^ 925), ← Nat.mul_assoc]
          _ ≤ 2 ^ 926 * ((2 * single.largest + 1) * den) :=
            Nat.mul_le_mul_left _ (hhigh.le.trans hbound)
          _ = 2 ^ 926 * (2 * single.largest + 1) * den := (Nat.mul_assoc _ _ _).symm
          _ ≤ double.largest * den := Nat.mul_le_mul_right _ largest_double
      rw [if_neg hinfinite]
      rfl

end Scriptlet.Binary
