import Scriptlet.Proofs.Decimal.Reading
import Scriptlet.Proofs.Decimal.Shortest

namespace Scriptlet

/-!
# Numbers that are written and read

The text of a finite number is read as exactly the number of its shortest decimal, and is rounded
from there to the number that was written.
-/

open Binary (Format)

/-! ### Texts -/

namespace Decimal

theorem lt_ten_of_mem_layout (t : NumberText) {d : Decimal} (hd : ∀ x ∈ d.digits, x < 10) {x : ℕ}
    (hx : x ∈ (d.layout t).whole ++ (d.layout t).fraction) : x < 10 := by
  unfold layout positionalLayout scientificLayout at hx
  split at hx
  · split at hx
    · rcases List.mem_append.1 hx with hx | hx
      · exact @lt_ten_of_mem_zeros 1 x hx
      · exact (List.mem_append.1 hx).elim lt_ten_of_mem_zeros (hd x)
    · split at hx
      · rw [List.append_nil] at hx
        exact (List.mem_append.1 hx).elim (hd x) lt_ten_of_mem_zeros
      · rw [List.take_append_drop] at hx
        exact hd x hx
  · rw [List.take_append_drop] at hx
    exact hd x hx

theorem whole_layout_ne_nil (t : NumberText) {d : Decimal} (hd : d.digits ≠ []) :
    (d.layout t).whole ≠ [] := by
  unfold layout positionalLayout scientificLayout
  split
  · split
    · exact List.cons_ne_nil _ _
    · split
      · exact List.append_ne_nil_of_left_ne_nil hd _
      · simpa using hd
  · simpa using hd

theorem exponent_layout (t : NumberText) {d : Decimal} {e : ℤ}
    (he : e ∈ (d.layout t).exponent) : e = d.exponent := by
  unfold layout positionalLayout scientificLayout at he
  split at he
  · split at he
    · cases he
    · split at he <;> cases he
  · exact (Option.some.inj he).symm

/-- The text of a decimal is its sign and a numeral, which begins with a digit and denotes exactly
the decimal's number. -/
theorem exists_read?_general (t : NumberText) {d : Decimal} (hne : d.digits ≠ [])
    (hdigits : ∀ x ∈ d.digits, x < 10) (hexponent : d.exponent.natAbs < Numeral.exponentLimit) :
    ∃ c cs n, (d.general t).toList = d.signText.toList ++ c :: cs ∧ c.isDigit = true ∧
      Numeral.read? (c :: cs) = some n ∧ n.value = d.magnitude := by
  have hlayout : ∀ x ∈ (d.layout t).whole ++ (d.layout t).fraction, x < 10 :=
    fun x hx => lt_ten_of_mem_layout t hdigits hx
  have hwhole := whole_layout_ne_nil t hne
  obtain ⟨n, hread, hvalue⟩ := Layout.exists_read? t.exponentWidth hlayout
    (List.append_ne_nil_of_left_ne_nil hwhole _) fun e he => exponent_layout t he ▸ hexponent
  rw [value_layout t hne] at hvalue
  obtain ⟨x, rest, hx⟩ := List.exists_cons_of_ne_nil hwhole
  have hchars : (d.layout t).chars t.exponentWidth = x.digitChar :: (rest.map Nat.digitChar ++
      Numeral.pointed ((d.layout t).fraction.map Nat.digitChar) ++
        exponentText t.exponentWidth (d.layout t).exponent) := by
    rw [Layout.chars, hx]
    rfl
  have hlt : x < 10 := hlayout x (List.mem_append_left _ (hx ▸ List.mem_cons_self))
  refine ⟨_, _, n, ?_, ?_, hchars ▸ hread, hvalue⟩
  · rw [toList_general t hne, hchars]
  · rw [Nat.isDigit_digitChar]
    exact decide_eq_true hlt

end Decimal

theorem ne_of_isDigit {c a : Char} (hc : c.isDigit = true) (ha : a.isDigit = false) : c ≠ a := by
  rintro rfl
  rw [hc] at ha
  cases ha

theorem readSign_digit {c : Char} (hc : c.isDigit = true) (cs : List Char) :
    readSign (c :: cs) = (false, c :: cs) := by
  unfold readSign
  split
  next heq => exact absurd (List.cons.inj heq).1 (ne_of_isDigit hc (by decide))
  next heq => exact absurd (List.cons.inj heq).1 (ne_of_isDigit hc (by decide))
  next => rfl

/-- The sign of a decimal is read. -/
theorem readSign_signText (d : Decimal) {c : Char} (hc : c.isDigit = true) (cs : List Char) :
    readSign (d.signText.toList ++ c :: cs) = (d.negative, c :: cs) := by
  rw [Decimal.signText]
  cases d.negative with
  | true => rfl
  | false => exact readSign_digit hc cs

theorem toLower_digit {c : Char} (hc : c.isDigit = true) : c.toLower = c := by
  have hle : c.val.toNat ≤ 57 := (Numeral.toNat_of_isDigit hc).2
  apply dif_neg
  rintro ⟨hletter, -⟩
  rw [ge_iff_le, UInt32.le_iff_toNat_le] at hletter
  exact absurd (Nat.le_trans hletter hle) (by decide)

/-- A text that begins with a digit is no word. -/
theorem sameLetters_digit {c a : Char} (hc : c.isDigit = true) (ha : a.toLower.isDigit = false)
    (cs as : List Char) : sameLetters (c :: cs) (a :: as) = false := by
  rw [sameLetters, List.map_cons, List.map_cons, toLower_digit hc, List.cons_beq_cons,
    beq_eq_false_iff_ne.2 (ne_of_isDigit hc ha), Bool.false_and]

theorem readSign_numeral {c : Char} (hc : c.isDigit = true ∨ c = '.') (cs : List Char) :
    readSign (c :: cs) = (false, c :: cs) := by
  obtain hdigit | rfl := hc
  · exact readSign_digit hdigit cs
  · rfl

/-- A text that begins like a numeral is no word. -/
theorem sameLetters_numeral {c a : Char} (hc : c.isDigit = true ∨ c = '.')
    (ha : a.toLower.isDigit = false) (hpoint : '.'.toLower ≠ a.toLower) (cs as : List Char) :
    sameLetters (c :: cs) (a :: as) = false := by
  obtain hdigit | rfl := hc
  · exact sameLetters_digit hdigit ha cs as
  · rw [sameLetters, List.map_cons, List.map_cons, List.cons_beq_cons,
      beq_eq_false_iff_ne.2 hpoint, Bool.false_and]

/-- The text of a decimal is read as a number. -/
theorem exists_readNumber_general (f : Format) (t : NumberText) {d : Decimal}
    (hne : d.digits ≠ []) (hdigits : ∀ x ∈ d.digits, x < 10)
    (hexponent : d.exponent.natAbs < Numeral.exponentLimit) :
    ∃ s n, Numeral.read? s = some n ∧ n.value = d.magnitude ∧
      readNumber f (d.general t).toList = some (n.toDatum f d.negative) := by
  obtain ⟨c, cs, n, htext, hc, hread, hvalue⟩ :=
    Decimal.exists_read?_general t hne hdigits hexponent
  refine ⟨c :: cs, n, hread, hvalue, ?_⟩
  have hinfinity : sameLetters (c :: cs) "infinity".toList = false :=
    sameLetters_digit hc (by decide) _ _
  have hnan : sameLetters (c :: cs) "nan".toList = false := sameLetters_digit hc (by decide) _ _
  rw [readNumber, htext, readSign_signText d hc]
  simp only [hinfinity, hnan, hread, Bool.false_eq_true, if_false, Option.map_some]

/-! ### Rounding -/

/-- A format whose numbers stay between the bounds within which numerals are computed. -/
structure Binary.Format.Modest (f : Format) : Prop where
  precision_pos : 0 < f.precision
  one_lt : 2 * f.one < 10 ^ 400
  largest_lt : 2 * f.largest < 10 ^ 400 * f.one

theorem Binary.single_modest : Binary.single.Modest :=
  ⟨by decide, by decide +kernel, by decide +kernel⟩

theorem Binary.double_modest : Binary.double.Modest :=
  ⟨by decide, by decide +kernel, by decide +kernel⟩

section

variable {f : Format} {units : ℕ}

/-- Half of a positive number and twice a number of a modest format are within the bounds. -/
theorem Binary.Format.Modest.bounds (hf : f.Modest) (hheld : f.Holds units) (hunits : units ≠ 0) :
    (10 : ℚ) ^ (-400 : ℤ) < units / (2 * f.one) ∧ (2 * units / f.one : ℚ) < 10 ^ (400 : ℤ) := by
  have hone : (0 : ℚ) < f.one := by exact_mod_cast f.one_pos
  have hleast : (1 : ℚ) ≤ units := by exact_mod_cast Nat.pos_of_ne_zero hunits
  have hmost : (2 * units : ℚ) ≤ 2 * f.largest := by exact_mod_cast Nat.mul_le_mul_left 2 hheld.1
  have hsmall : (2 * f.one : ℚ) < 10 ^ (400 : ℤ) := by exact_mod_cast hf.one_lt
  have hlarge : (2 * f.largest : ℚ) < 10 ^ (400 : ℤ) * f.one := by exact_mod_cast hf.largest_lt
  constructor
  · rw [zpow_neg, lt_div_iff₀ (by positivity), inv_mul_lt_iff₀ (by positivity)]
    exact lt_of_lt_of_le hsmall (le_mul_of_one_le_right (by positivity) hleast)
  · rw [div_lt_iff₀ hone]
    exact lt_of_le_of_lt hmost hlarge

/-- What the rounding interval of a number contains is at least half of it and at most twice as
much. -/
theorem Decimal.bounds_of_mem (hp : 0 < f.precision) (hheld : f.Holds units) (hunits : units ≠ 0)
    {y : ℚ} (h : (Decimal.roundingInterval f units).Mem y) :
    (units : ℚ) / (2 * f.one) ≤ y ∧ y ≤ 2 * units / f.one := by
  have hone : (0 : ℚ) < f.one := by exact_mod_cast f.one_pos
  obtain ⟨-, m, s, rfl, hm, hs⟩ := hheld
  obtain ⟨hlow, hhigh, -⟩ := h
  rw [Decimal.roundingInterval_significand hp hm hs] at hlow hhigh
  have hmany : 2 ^ s ≤ m * 2 ^ s := Nat.le_of_dvd (Nat.pos_of_ne_zero hunits) (Nat.dvd_mul_left _ m)
  have hreach : 2 * (m * 2 ^ s) ≤ 4 * (m * 2 ^ s) - Decimal.reachBelow f m s := by
    rw [Decimal.reachBelow]
    split <;> omega
  have hwide : 4 * (m * 2 ^ s) + 2 * 2 ^ s ≤ 8 * (m * 2 ^ s) := by omega
  have hquarter : ((4 * f.one : ℕ) : ℚ) = 4 * f.one := by push_cast; rfl
  rw [hquarter] at hlow hhigh
  constructor
  · refine le_trans ?_ hlow
    rw [div_le_div_iff₀ (by positivity) (by positivity)]
    calc ((m * 2 ^ s : ℕ) : ℚ) * (4 * f.one) = (2 * (m * 2 ^ s) : ℕ) * (2 * f.one) := by
          push_cast
          ring
      _ ≤ _ := mul_le_mul_of_nonneg_right (by exact_mod_cast hreach) (by positivity)
  · refine le_trans hhigh ?_
    rw [div_le_div_iff₀ (by positivity) hone]
    calc _ ≤ ((8 * (m * 2 ^ s) : ℕ) : ℚ) * f.one :=
          mul_le_mul_of_nonneg_right (by exact_mod_cast hwide) hone.le
      _ = 2 * (m * 2 ^ s : ℕ) * (4 * f.one) := by
          push_cast
          ring

/-- The number of a numeral has as many places before the point as its length and exponent say. -/
theorem Numeral.Measured.value_bounds {n : Numeral} (h : n.Measured) (hn : n.mantissa ≠ 0) :
    (10 : ℚ) ^ (n.length + n.exponent - 1) ≤ n.value ∧ n.value < 10 ^ (n.length + n.exponent) := by
  obtain ⟨hlength, hlow, hhigh⟩ := h hn
  have hten : (10 : ℚ) ≠ 0 := by norm_num
  have hpos : (0 : ℚ) < 10 ^ n.exponent := by positivity
  have hexp : (n.length : ℤ) + n.exponent - 1 = (n.length - 1 : ℕ) + n.exponent := by omega
  rw [hexp, zpow_add₀ hten, zpow_add₀ hten, zpow_natCast, zpow_natCast, Numeral.value]
  constructor
  · exact mul_le_mul_of_nonneg_right (by exact_mod_cast hlow) hpos.le
  · exact mul_lt_mul_of_pos_right (by exact_mod_cast hhigh) hpos

/-- A numeral in the rounding interval of a number is rounded to the number. -/
theorem Numeral.roundUnits_eq (hp : 0 < f.precision) (hheld : f.Holds units) {n : Numeral}
    (h : (Decimal.roundingInterval f units).Mem n.value) :
    f.roundUnits (n.mantissa * Decimal.tenTo n.exponent.toNat * f.one)
      (Decimal.tenTo (-n.exponent).toNat) = units := by
  have hone : (f.one : ℚ) ≠ 0 := by exact_mod_cast f.one_pos.ne'
  have hvalue : ((n.mantissa * Decimal.tenTo n.exponent.toNat * f.one : ℕ) : ℚ) /
      (Decimal.tenTo (-n.exponent).toNat * f.one : ℕ) = n.value := by
    rw [Numeral.value, Decimal.ten_zpow]
    push_cast
    rw [mul_div_mul_right _ _ hone, mul_div_assoc]
  apply Decimal.roundUnits_of_mem hp hheld (Decimal.tenTo_pos _)
  rw [hvalue]
  exact h

/-- A numeral in the rounding interval of a number is read as the number. -/
theorem Numeral.toDatum_eq (hf : f.Modest) (hheld : f.Holds units) (hunits : units ≠ 0)
    {s : List Char} {n : Numeral} (hread : Numeral.read? s = some n)
    (h : (Decimal.roundingInterval f units).Mem n.value) (negative : Bool) :
    n.toDatum f negative = .finite negative units := by
  have hone : (0 : ℚ) < f.one := by exact_mod_cast f.one_pos
  have hten : (1 : ℚ) < 10 := by norm_num
  obtain ⟨hlow, hhigh⟩ := Decimal.bounds_of_mem hf.precision_pos hheld hunits h
  have hpositive : 0 < n.value := by
    refine lt_of_lt_of_le ?_ hlow
    have hunits' : (0 : ℚ) < units := by exact_mod_cast Nat.pos_of_ne_zero hunits
    positivity
  have hmantissa : n.mantissa ≠ 0 := by
    intro hzero
    rw [Numeral.value, hzero, Nat.cast_zero, zero_mul] at hpositive
    exact lt_irrefl 0 hpositive
  obtain ⟨hleast, hmost⟩ := (Numeral.measured_of_read? hread).value_bounds hmantissa
  obtain ⟨hsmall, hlarge⟩ := hf.bounds hheld hunits
  have hnotTiny : ¬(n.length + n.exponent < -Numeral.magnitudeBound) := by
    intro htiny
    have hpower : (10 : ℚ) ^ (n.length + n.exponent) ≤ 10 ^ (-400 : ℤ) :=
      zpow_le_zpow_right₀ hten.le htiny.le
    linarith
  have hnotHuge : ¬(Numeral.magnitudeBound < n.length + n.exponent) := by
    intro hhuge
    have hpower : (10 : ℚ) ^ (400 : ℤ) ≤ 10 ^ (n.length + n.exponent - 1) :=
      zpow_le_zpow_right₀ hten.le (Int.le_sub_one_of_lt hhuge)
    linarith
  rw [Numeral.toDatum, if_neg hmantissa, if_neg hnotTiny, if_neg hnotHuge, Format.ofRatio,
    Format.ofUnits]
  simp only [Numeral.roundUnits_eq hf.precision_pos hheld h, if_pos hheld.1]

/-- The exponents of the shortest decimals of a modest format can be read. -/
theorem Decimal.natAbs_exponent_lt (hf : f.Modest) (hheld : f.Holds units) (hunits : units ≠ 0)
    (negative : Bool) :
    (Decimal.ofUnits f negative units).exponent.natAbs < Numeral.exponentLimit := by
  have hten : (1 : ℚ) < 10 := by norm_num
  have hone : (0 : ℚ) < f.one := by exact_mod_cast f.one_pos
  have hunits' : (0 : ℚ) < units := by exact_mod_cast Nat.pos_of_ne_zero hunits
  obtain ⟨hsmall, hlarge⟩ := hf.bounds hheld hunits
  obtain ⟨hlow, hhigh⟩ := Decimal.leading_spec (Nat.pos_of_ne_zero hunits) f.one_pos
  have hhalf : (units : ℚ) / (2 * f.one) ≤ units / f.one :=
    div_le_div_of_nonneg_left hunits'.le hone (by linarith)
  have htwice : (units : ℚ) / f.one ≤ 2 * units / f.one :=
    div_le_div_of_nonneg_right (by linarith) hone.le
  have hmost := (zpow_lt_zpow_iff_right₀ hten).1 (hlow.trans_lt (htwice.trans_lt hlarge))
  have hleast := (zpow_lt_zpow_iff_right₀ hten).1 ((hsmall.trans_le hhalf).trans hhigh)
  obtain ⟨-, -, -, he⟩ := Decimal.ofUnits_spec hf.precision_pos hheld hunits negative
  have hlimit : Numeral.exponentLimit = 65536 := rfl
  omega

end

/-! ### Numbers -/

theorem Decimal.ofUnits_zero (f : Format) (negative : Bool) :
    Decimal.ofUnits f negative 0 = ⟨negative, [0], 0⟩ :=
  if_pos rfl

section

variable {f : Format} {units : ℕ}

/-- What is needed of a decimal for its text to be read. -/
theorem Decimal.readable_ofUnits (hf : f.Modest) (hheld : f.Holds units) (negative : Bool) :
    (Decimal.ofUnits f negative units).negative = negative ∧
      (Decimal.ofUnits f negative units).digits ≠ [] ∧
      (∀ x ∈ (Decimal.ofUnits f negative units).digits, x < 10) ∧
      (Decimal.ofUnits f negative units).exponent.natAbs < Numeral.exponentLimit := by
  by_cases hunits : units = 0
  · rw [hunits, Decimal.ofUnits_zero]
    refine ⟨rfl, List.cons_ne_nil _ _, ?_, Nat.succ_pos _⟩
    intro x hx
    obtain rfl := List.mem_singleton.1 hx
    decide
  · obtain ⟨hnormal, hsign, -, -⟩ := Decimal.ofUnits_spec hf.precision_pos hheld hunits negative
    obtain ⟨x, rest, hdigits, -⟩ := hnormal.leading
    refine ⟨hsign, ?_, hnormal.digit, Decimal.natAbs_exponent_lt hf hheld hunits negative⟩
    rw [hdigits]
    exact List.cons_ne_nil _ _

/-- The text of a finite number is read as exactly its decimal, and as the number itself. -/
theorem read_write_finite (hf : f.Modest) (hheld : f.Holds units) (t : NumberText)
    (negative : Bool) :
    readNumber f (t.write f (.finite negative units)).toList = some (.finite negative units) := by
  obtain ⟨hsign, hne, hdigits, hexponent⟩ := Decimal.readable_ofUnits hf hheld negative
  obtain ⟨s, n, hread, hvalue, hnumber⟩ :=
    exists_readNumber_general f t hne hdigits hexponent
  rw [NumberText.write, hnumber, hsign]
  refine congrArg some ?_
  by_cases hunits : units = 0
  · have hzero : n.mantissa = 0 := by
      rw [hunits, Decimal.ofUnits_zero, Decimal.magnitude, Numeral.value] at hvalue
      have hdigit : numberOf [0] = 0 := rfl
      rw [hdigit, Nat.cast_zero, zero_mul, mul_eq_zero] at hvalue
      rcases hvalue with hvalue | hvalue
      · exact_mod_cast hvalue
      · exact absurd hvalue (by positivity)
    rw [Numeral.toDatum, if_pos hzero, hunits]
  · obtain ⟨-, -, hmem, -⟩ := Decimal.ofUnits_spec hf.precision_pos hheld hunits negative
    rw [← hvalue] at hmem
    exact Numeral.toDatum_eq hf hheld hunits hread hmem negative

end

end Scriptlet
