import Scriptlet.Proofs.Binary.Nearest
import Scriptlet.Proofs.Value.Integers

namespace Scriptlet

/-!
# Numbers in scientific notation

Digits with at most one point, and an exponent or none: exactly these texts are read as numerals.
The numeral denotes the number that the text denotes, or a number that is rounded alike, unless there
are very many digits and a very large exponent.
-/

/-- The digits of a number, how many of them are behind the point, and the exponent. -/
structure Scientific where
  digits : List Char
  places : ℕ
  exponent : ℤ

namespace Scientific

def value (n : Scientific) : ℚ :=
  Numeral.rowValue n.digits * 10 ^ (n.exponent - n.places)

/-- The exponent has at most one digit behind the limit, or the digits are too few to make up for
it. -/
def IsLegible (n : Scientific) : Prop :=
  n.exponent.natAbs < 655360 ∨ n.digits.length ≤ 65135

end Scientific

/-- Digits with at most one point. -/
inductive WritesMantissa : List Char → List Char → ℕ → Prop
  | whole {digits : List Char} (hdigits : IsDigits digits) : WritesMantissa digits digits 0
  | pointed {whole fraction : List Char} (hdigits : IsDigits (whole ++ fraction)) :
      WritesMantissa (whole ++ '.' :: fraction) (whole ++ fraction) fraction.length

inductive WritesExponent : List Char → ℤ → Prop
  | absent : WritesExponent [] 0
  | present {e : Char} {sign digits : List Char} {negative : Bool} (he : e = 'e' ∨ e = 'E')
      (hsign : SignText sign negative) (hdigits : IsDigits digits) :
      WritesExponent (e :: (sign ++ digits)) (signed negative (Numeral.rowValue digits))

inductive WritesNumber : List Char → Scientific → Prop
  | text {mantissa digits exponent : List Char} {places : ℕ} {e : ℤ}
      (hmantissa : WritesMantissa mantissa digits places) (hexponent : WritesExponent exponent e) :
      WritesNumber (mantissa ++ exponent) ⟨digits, places, e⟩

/-- What is read for an exponent, of which some digits may be left unread. -/
structure Curtailed (e k : ℤ) : Prop where
  same : e.natAbs < 655360 → k = e
  high : 655360 ≤ e → 65536 ≤ k
  low : e ≤ -655360 → k ≤ -65536

variable {s rest mantissa digits : List Char} {places : ℕ} {e k : ℤ}

theorem WritesMantissa.isDigits (h : WritesMantissa mantissa digits places) :
    IsDigits digits ∧ places ≤ digits.length := by
  cases h with
  | whole hdigits => exact ⟨hdigits, Nat.zero_le _⟩
  | pointed hdigits =>
      rw [List.length_append]
      exact ⟨hdigits, Nat.le_add_left _ _⟩

theorem WritesNumber.isDigits {n : Scientific} (h : WritesNumber s n) :
    IsDigits n.digits ∧ n.places ≤ n.digits.length := by
  cases h with
  | text hmantissa _ => exact hmantissa.isDigits

namespace Numeral

/-! ### Exponents -/

theorem curtailed_signed (negative : Bool) (digits : List Char) :
    Curtailed (signed negative (rowValue digits)) (signed negative (exponentValue digits)) := by
  have hlimit : exponentLimit = 65536 := rfl
  by_cases hmany : rowValue digits < 10 * exponentLimit
  · rw [exponentValue_eq hmany]
    cases negative <;> simp only [signed, if_true, Bool.false_eq_true, if_false] <;>
      exact ⟨fun _ => rfl, by omega, by omega⟩
  · have hread := @exponentLimit_le_exponentValue digits (by omega)
    cases negative <;> simp only [signed, if_true, Bool.false_eq_true, if_false] <;>
      exact ⟨by omega, by omega, by omega⟩

theorem exists_readExponent (h : WritesExponent s e) :
    ∃ k, readExponent s = some k ∧ Curtailed e k := by
  cases h with
  | absent => exact ⟨0, rfl, fun _ => rfl, by omega, by omega⟩
  | @present c sign digits negative hc hsign hdigits =>
      refine ⟨_, ?_, curtailed_signed negative digits⟩
      rw [readExponent_cons, if_pos hc, readSign_append hsign hdigits.head,
        readExponent.readDigits, if_pos (isDigits_iff.1 hdigits), Option.map_some]

theorem exists_writesExponent (h : readExponent s = some k) : ∃ e, WritesExponent s e := by
  cases s with
  | nil => exact ⟨0, .absent⟩
  | cons c s =>
      rw [readExponent_cons] at h
      split at h
      · next hc =>
          obtain ⟨sign, hsign, htext⟩ := exists_signText s
          obtain ⟨n, hn, -⟩ := Option.map_eq_some_iff.1 h
          rw [readExponent.readDigits] at hn
          split at hn
          · next hdigits =>
              have hexponent := WritesExponent.present hc hsign (isDigits_iff.2 hdigits)
              rw [← htext] at hexponent
              exact ⟨_, hexponent⟩
          · cases hn
      · cases h

/-- An exponent begins with neither a digit nor a point. -/
theorem head?_of_readExponent (h : readExponent s = some k) :
    ∀ c ∈ s.head?, c.isDigit = false ∧ c ≠ '.' := by
  intro c hc
  cases s with
  | nil => cases hc
  | cons a s =>
      obtain rfl := Option.some.inj hc
      rw [readExponent_cons] at h
      split at h
      · next he => obtain rfl | rfl := he <;> decide
      · cases h

/-! ### Mantissas -/

theorem readMantissa_append (h : WritesMantissa mantissa digits places)
    (hrest : ∀ c ∈ rest.head?, c.isDigit = false ∧ c ≠ '.') :
    ∃ whole fraction, readMantissa (mantissa ++ rest) = (whole, fraction, rest) ∧
      whole ++ fraction = digits ∧ fraction.length = places := by
  cases h with
  | whole hdigits =>
      have hread := readMantissa_parts hdigits.digit (List.forall_mem_nil _) hrest
      rw [pointed, List.append_nil] at hread
      exact ⟨mantissa, [], hread, List.append_nil _, rfl⟩
  | @pointed whole fraction hdigits =>
      refine ⟨whole, fraction, ?_, rfl, rfl⟩
      rw [List.append_assoc, List.cons_append]
      exact readMantissa_pointed (fun c hc => hdigits.digit c (List.mem_append_left _ hc))
        (fun c hc => hdigits.digit c (List.mem_append_right _ hc)) fun c hc => (hrest c hc).1

theorem exists_writesMantissa {whole fraction : List Char}
    (h : readMantissa s = (whole, fraction, rest)) (hne : whole ++ fraction ≠ []) :
    ∃ mantissa, s = mantissa ++ rest ∧
      WritesMantissa mantissa (whole ++ fraction) fraction.length := by
  have hdigits : IsDigits (whole ++ fraction) := ⟨hne, fun c hc => isDigit_of_readMantissa h hc⟩
  have hsplit := List.takeWhile_append_dropWhile (p := Char.isDigit) (l := s)
  unfold readMantissa at h
  dsimp only at h
  split at h
  · next tail htail =>
      cases h
      refine ⟨_, ?_, .pointed hdigits⟩
      rw [List.append_assoc, List.cons_append, List.takeWhile_append_dropWhile, ← htail, hsplit]
  · cases h
    rw [List.append_nil] at hdigits ⊢
    exact ⟨_, hsplit.symm, .whole hdigits⟩

/-! ### Numerals -/

theorem read?_append (hmantissa : WritesMantissa mantissa digits places)
    (hexponent : readExponent rest = some k) :
    read? (mantissa ++ rest) = some (ofDigits digits (k - places)) := by
  obtain ⟨whole, fraction, hread, rfl, rfl⟩ :=
    readMantissa_append hmantissa (head?_of_readExponent hexponent)
  unfold read?
  simp only [hread, if_neg hmantissa.isDigits.1.ne_nil, hexponent, Option.map_some]
  rfl

/-- A number in scientific notation is read, and its digits are all read. -/
theorem exists_read? {n : Scientific} (h : WritesNumber s n) :
    ∃ k, read? s = some (ofDigits n.digits (k - n.places)) ∧ Curtailed n.exponent k := by
  cases h with
  | text hmantissa hexponent =>
      obtain ⟨k, hk, hcurtailed⟩ := exists_readExponent hexponent
      exact ⟨k, read?_append hmantissa hk, hcurtailed⟩

/-- Nothing else is read. -/
theorem exists_writesNumber {n : Numeral} (h : read? s = some n) : ∃ m, WritesNumber s m := by
  rw [read?] at h
  rcases hmantissa : readMantissa s with ⟨whole, fraction, rest⟩
  simp only [hmantissa] at h
  split at h
  · cases h
  · next hne =>
      obtain ⟨k, hk, -⟩ := Option.map_eq_some_iff.1 h
      obtain ⟨mantissa, rfl, hwrites⟩ := exists_writesMantissa hmantissa hne
      obtain ⟨e, hexponent⟩ := exists_writesExponent hk
      exact ⟨_, .text hwrites hexponent⟩

end Numeral

/-! ### Rounding -/

section

variable {f : Binary.Format} {n : Numeral} {negative : Bool}

namespace Numeral

theorem value_nonneg (n : Numeral) : 0 ≤ n.value := by
  rw [value]
  positivity

theorem toDatum_of_zero (hn : n.mantissa = 0) : n.toDatum f negative = .finite negative 0 :=
  if_pos hn

theorem toDatum_of_tiny (hn : n.mantissa ≠ 0)
    (htiny : n.length + n.exponent < -magnitudeBound) :
    n.toDatum f negative = .finite negative 0 := by
  rw [toDatum, if_neg hn, if_pos htiny]

theorem toDatum_of_huge (hn : n.mantissa ≠ 0)
    (hhuge : magnitudeBound < n.length + n.exponent) :
    n.toDatum f negative = .infinite negative := by
  have hbound : magnitudeBound = 400 := rfl
  rw [toDatum, if_neg hn, if_neg (by omega), if_pos hhuge]

theorem rounds_of_zero (hn : n.mantissa = 0) : f.Rounds negative n.value (.finite negative 0) := by
  apply Binary.Format.rounds_zero n.value_nonneg
  rw [value, hn]
  norm_num

/-- Numbers below the bound are rounded to zero. -/
theorem rounds_of_tiny (hf : f.Modest) (h : n.Measured) (hn : n.mantissa ≠ 0)
    (htiny : n.length + n.exponent < -magnitudeBound) :
    f.Rounds negative n.value (.finite negative 0) := by
  have hone : (0 : ℚ) < f.one := by exact_mod_cast f.one_pos
  have hsmall : (2 * f.one : ℚ) < 10 ^ (400 : ℤ) := by exact_mod_cast hf.one_lt
  have hpower : (10 : ℚ) ^ (n.length + n.exponent) ≤ 10 ^ (-400 : ℤ) :=
    zpow_le_zpow_right₀ (by norm_num) htiny.le
  have hvalue := (h.value_bounds hn).2.trans_le hpower
  apply Binary.Format.rounds_zero n.value_nonneg
  calc 2 * (n.value * f.one) = n.value * (2 * f.one) := by ring
    _ < 10 ^ (-400 : ℤ) * 10 ^ (400 : ℤ) :=
        mul_lt_mul'' hvalue hsmall n.value_nonneg (by positivity)
    _ = 1 := by rw [zpow_neg, inv_mul_cancel₀ (by positivity)]

/-- Numbers beyond the bound are more than twice the largest number of the format. -/
theorem largest_le_of_huge (hf : f.Modest) (h : n.Measured) (hn : n.mantissa ≠ 0)
    (hhuge : magnitudeBound < n.length + n.exponent) :
    2 * (f.largest : ℚ) ≤ n.value * f.one := by
  have hlarge : (2 * f.largest : ℚ) < 10 ^ (400 : ℤ) * f.one := by exact_mod_cast hf.largest_lt
  have hpower : (10 : ℚ) ^ (400 : ℤ) ≤ 10 ^ (n.length + n.exponent - 1) :=
    zpow_le_zpow_right₀ (by norm_num) (Int.le_sub_one_of_lt hhuge)
  have hvalue := hpower.trans (h.value_bounds hn).1
  exact hlarge.le.trans (mul_le_mul_of_nonneg_right hvalue (by positivity))

/-- A numeral is rounded to the nearest number of the format. -/
theorem rounds_toDatum (hf : f.Modest) (hp : 1 < f.precision) (h : n.Measured) :
    f.Rounds negative n.value (n.toDatum f negative) := by
  rw [toDatum]
  split
  · next hn => exact rounds_of_zero hn
  · next hn =>
      split
      · next htiny => exact rounds_of_tiny hf h hn htiny
      · split
        · next hhuge => exact Binary.Format.rounds_infinite hp (largest_le_of_huge hf h hn hhuge)
        · apply Binary.Format.rounds_ofRatio hp (Decimal.tenTo_pos _)
          have hpos : (Decimal.tenTo (-n.exponent).toNat : ℚ) ≠ 0 := by
            exact_mod_cast (Decimal.tenTo_pos _).ne'
          rw [value, Decimal.ten_zpow, mul_assoc, div_mul_cancel₀ _ hpos]
          push_cast
          rfl

end Numeral

/-- A legible number is rounded to the nearest number of the format. -/
theorem Scientific.rounds (hf : f.Modest) (hp : 1 < f.precision) {n : Scientific}
    (hdigits : ∀ c ∈ n.digits, c.isDigit = true) (hplaces : n.places ≤ n.digits.length)
    (hlegible : n.IsLegible) (hk : Curtailed n.exponent k) :
    f.Rounds negative n.value
      ((Numeral.ofDigits n.digits (k - n.places)).toDatum f negative) := by
  have hvalue : n.value = (Numeral.ofDigits n.digits (n.exponent - n.places)).value := by
    rw [Numeral.value_ofDigits, value]
  have hmeasured := Numeral.measured_ofDigits hdigits
  rw [hvalue]
  by_cases hsmall : n.exponent.natAbs < 655360
  · rw [hk.same hsmall]
    exact Numeral.rounds_toDatum hf hp (hmeasured _)
  by_cases hn : (Numeral.ofDigits n.digits (k - n.places)).mantissa = 0
  · rw [Numeral.toDatum_of_zero hn]
    exact Numeral.rounds_of_zero hn
  have hpos : 0 < (n.digits.dropWhile (· == '0')).length := (hmeasured _ hn).1
  have hlength : (n.digits.dropWhile (· == '0')).length ≤ n.digits.length :=
    (List.dropWhile_sublist _).length_le
  have hfew := hlegible.resolve_left hsmall
  -- Such an exponent and what is read of it are both stronger than so few digits.
  obtain hhigh | hlow : 655360 ≤ n.exponent ∨ n.exponent ≤ -655360 := by omega
  · have hhuge : ∀ e : ℤ, 65536 ≤ e → Numeral.magnitudeBound <
        (Numeral.ofDigits n.digits (e - n.places)).length + (e - n.places) := by
      intro e he
      simp only [Numeral.ofDigits, Numeral.magnitudeBound]
      omega
    rw [Numeral.toDatum_of_huge hn (hhuge k (hk.high hhigh))]
    exact Binary.Format.rounds_infinite hp
      (Numeral.largest_le_of_huge hf (hmeasured _) hn (hhuge _ (by omega)))
  · have htiny : ∀ e : ℤ, e ≤ -65536 → (Numeral.ofDigits n.digits (e - n.places)).length +
        (e - n.places) < -Numeral.magnitudeBound := by
      intro e he
      simp only [Numeral.ofDigits, Numeral.magnitudeBound]
      omega
    rw [Numeral.toDatum_of_tiny hn (htiny k (hk.low hlow))]
    exact Numeral.rounds_of_tiny hf (hmeasured _) hn (htiny _ (by omega))

end

end Scriptlet
