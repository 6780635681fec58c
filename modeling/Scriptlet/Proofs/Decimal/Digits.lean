import Mathlib.Algebra.Order.Field.Rat
import Mathlib.Data.Nat.Digits.Lemmas
import Scriptlet.Decimal.General
import Scriptlet.Decimal.Reader

namespace Scriptlet

/-!
# Rows of digits

Rows of decimal digits are written most significant first. They denote the same number as the rows
of the library in the other direction.
-/

open Decimal (tenTo)

/-- The number that a row of digits denotes. -/
def numberOf (ds : List ℕ) : ℕ :=
  Nat.ofDigits 10 ds.reverse

/-- The rational number that a decimal denotes, its sign apart. -/
def Decimal.magnitude (d : Decimal) : ℚ :=
  numberOf d.digits * 10 ^ (d.exponent - (d.digits.length - 1 : ℤ))

theorem numberOf_append (ds es : List ℕ) :
    numberOf (ds ++ es) = numberOf ds * 10 ^ es.length + numberOf es := by
  rw [numberOf, List.reverse_append, Nat.ofDigits_append, List.length_reverse, Nat.add_comm,
    Nat.mul_comm]
  rfl

theorem numberOf_zeros (n : ℕ) : numberOf (List.replicate n 0) = 0 := by
  induction n with
  | zero => rfl
  | succ n ih => rw [List.replicate_succ', numberOf_append, ih, Nat.zero_mul]; rfl

theorem numberOf_zeros_append (n : ℕ) (ds : List ℕ) :
    numberOf (List.replicate n 0 ++ ds) = numberOf ds := by
  rw [numberOf_append, numberOf_zeros, Nat.zero_mul, Nat.zero_add]

theorem numberOf_append_zeros (n : ℕ) (ds : List ℕ) :
    numberOf (ds ++ List.replicate n 0) = numberOf ds * 10 ^ n := by
  rw [numberOf_append, numberOf_zeros, List.length_replicate, Nat.add_zero]

theorem digitCount_eq (n : ℕ) : digitCount n = Nat.log 10 n + 1 := by
  induction n using digitCount.induct with
  | case1 n h => rw [digitCount, if_pos h, Nat.log_of_lt h]
  | case2 n h ih =>
      have hlog : 0 < Nat.log 10 n := Nat.log_pos (by decide) (Nat.not_lt.1 h)
      rw [digitCount, if_neg h, ih, Nat.log_div_base, Nat.sub_add_cancel hlog]

theorem digitsOf_zero : digitsOf 0 = [0] := by
  rw [digitsOf, digitsOf.go]
  rfl

theorem go_digitsOf {n : ℕ} (hn : n ≠ 0) (rest : List ℕ) :
    digitsOf.go n rest = (Nat.digits 10 n).reverse ++ rest := by
  induction n, rest using digitsOf.go.induct with
  | case1 n rest h =>
      rw [digitsOf.go, if_pos h, Nat.digits_of_lt 10 n hn h]
      rfl
  | case2 n rest h ih =>
      rw [digitsOf.go, if_neg h, ih (by omega), Nat.digits_def' (by decide) (Nat.pos_of_ne_zero hn),
        List.reverse_cons, List.append_assoc]
      rfl

theorem digitsOf_of_ne_zero {n : ℕ} (hn : n ≠ 0) : digitsOf n = (Nat.digits 10 n).reverse := by
  rw [digitsOf, go_digitsOf hn, List.append_nil]

theorem numberOf_digitsOf (n : ℕ) : numberOf (digitsOf n) = n := by
  by_cases hn : n = 0
  · rw [hn, digitsOf_zero]
    rfl
  · rw [numberOf, digitsOf_of_ne_zero hn, List.reverse_reverse, Nat.ofDigits_digits]

theorem lt_ten_of_mem_digitsOf {n d : ℕ} (h : d ∈ digitsOf n) : d < 10 := by
  by_cases hn : n = 0
  · rw [hn, digitsOf_zero] at h
    obtain rfl : d = 0 := List.mem_singleton.1 h
    decide
  · rw [digitsOf_of_ne_zero hn, List.mem_reverse] at h
    exact Nat.digits_lt_base (by decide) h

theorem lt_ten_of_mem_zeros {n d : ℕ} (h : d ∈ List.replicate n 0) : d < 10 := by
  obtain rfl := List.eq_of_mem_replicate h
  decide

theorem length_digitsOf (n : ℕ) : (digitsOf n).length = digitCount n := by
  by_cases hn : n = 0
  · rw [hn, digitsOf_zero, digitCount_eq]
    rfl
  · rw [digitsOf_of_ne_zero hn, List.length_reverse, digitCount_eq,
      Nat.length_digits 10 n (by decide) hn]

/-- The row of a positive number does not begin with zero. -/
theorem head?_digitsOf_ne {n : ℕ} (hn : n ≠ 0) : (digitsOf n).head? ≠ some 0 := by
  rw [digitsOf_of_ne_zero hn, List.head?_reverse]
  have hne : Nat.digits 10 n ≠ [] := Nat.digits_ne_nil_iff_ne_zero.2 hn
  rw [List.getLast?_eq_getLast_of_ne_nil hne]
  intro h
  exact Nat.getLast_digit_ne_zero 10 hn (Option.some.inj h)

namespace Numeral

theorem digitValue_digitChar {d : ℕ} (h : d < 10) : digitValue d.digitChar = d :=
  Nat.toNat_digitChar_sub_48_of_lt_ten h

/-- A row of digits that is written and read keeps its value. -/
theorem rowValue_map_digitChar {ds : List ℕ} (h : ∀ d ∈ ds, d < 10) :
    rowValue (ds.map Nat.digitChar) = numberOf ds := by
  induction ds using List.reverseRecOn with
  | nil => rfl
  | append_singleton ds d ih =>
      have hlast : rowValue ([d].map Nat.digitChar) = numberOf [d] := by
        simp only [List.map_cons, List.map_nil, rowValue, List.foldl_cons, List.foldl_nil,
          digitValue_digitChar (h d (by simp))]
        simp [numberOf]
      rw [List.map_append, rowValue_append, hlast, numberOf_append, List.length_map,
        ih fun e he => h e (List.mem_append_left _ he)]
      rfl

/-- What an integer is written with, read as a row. -/
theorem rowValue_toDigits (n : ℕ) : rowValue (Nat.toDigits 10 n) = n :=
  Nat.ofDigitChars_ten_toDigits

theorem rowValue_cons (c : Char) (cs : List Char) :
    rowValue (c :: cs) = digitValue c * 10 ^ cs.length + rowValue cs := by
  have happend := rowValue_append [c] cs
  have hone : rowValue [c] = digitValue c := Nat.zero_add _
  rwa [hone, tenTo, Nat.pow_eq] at happend

theorem rowValue_dropWhile (cs : List Char) : rowValue (cs.dropWhile (· == '0')) = rowValue cs := by
  induction cs with
  | nil => rfl
  | cons c cs ih =>
      rw [List.dropWhile_cons]
      split
      next h =>
        obtain rfl : c = '0' := by simpa using h
        rw [ih, rowValue_cons]
        simp [digitValue]
      next => rfl

theorem toNat_of_isDigit {c : Char} (h : c.isDigit = true) : 48 ≤ c.toNat ∧ c.toNat ≤ 57 := by
  simp only [Char.isDigit, Bool.and_eq_true, decide_eq_true_eq, ge_iff_le,
    UInt32.le_iff_toNat_le] at h
  exact h

theorem rowValue_lt {cs : List Char} (h : ∀ c ∈ cs, c.isDigit = true) :
    rowValue cs < 10 ^ cs.length := by
  induction cs with
  | nil => decide
  | cons c cs ih =>
      have hc := (toNat_of_isDigit (h c List.mem_cons_self)).2
      have hvalue : digitValue c ≤ 9 := by
        have hzero : '0'.toNat = 48 := rfl
        rw [digitValue, hzero]
        omega
      have hrest := ih fun x hx => h x (List.mem_cons_of_mem c hx)
      rw [rowValue_cons, List.length_cons, Nat.pow_succ]
      have hmany := Nat.mul_le_mul_right (10 ^ cs.length) hvalue
      omega

/-- The value of a row without a leading zero has as many digits as the row. -/
theorem pow_le_rowValue {c : Char} (hdigit : c.isDigit = true) (hc : c ≠ '0') (cs : List Char) :
    10 ^ cs.length ≤ rowValue (c :: cs) := by
  have hpos : 1 ≤ digitValue c := by
    have hzero : '0'.toNat = 48 := rfl
    have hne : c.toNat ≠ 48 := fun h => hc (Char.toNat_inj.1 h)
    have hbounds := toNat_of_isDigit hdigit
    rw [digitValue, hzero]
    omega
  rw [rowValue_cons]
  exact Nat.le_trans (Nat.le_mul_of_pos_left _ hpos) (Nat.le_add_right _ _)

/-- The value of a row has as many digits as the row has behind its leading zeros. -/
theorem pow_le_rowValue_dropWhile {cs : List Char} (h : ∀ c ∈ cs, c.isDigit = true)
    (hne : cs.dropWhile (· == '0') ≠ []) :
    10 ^ ((cs.dropWhile (· == '0')).length - 1) ≤ rowValue (cs.dropWhile (· == '0')) := by
  have hdigits : ∀ c ∈ cs.dropWhile (· == '0'), c.isDigit = true :=
    fun c hc => h c ((List.dropWhile_sublist _).subset hc)
  have hhead := List.head?_dropWhile_not (· == '0') cs
  obtain ⟨c, rest, hrest⟩ := List.exists_cons_of_ne_nil hne
  rw [hrest] at hdigits hhead ⊢
  exact pow_le_rowValue (hdigits c List.mem_cons_self) (by simpa using hhead) rest

end Numeral

end Scriptlet
