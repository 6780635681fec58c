import Mathlib.Algebra.Order.Field.Power
import Mathlib.Data.List.TakeWhile
import Mathlib.Tactic.Linarith
import Mathlib.Tactic.Positivity
import Scriptlet.Proofs.Decimal.Digits
import Scriptlet.Proofs.Text.Blank

namespace Scriptlet

/-!
# Numerals that are written and read

The text of a decimal is laid out as digits, a point with more digits, and an exponent. Whatever the
layout, the text is read as a numeral that denotes exactly the number of the decimal.
-/

open Decimal (tenTo)

/-- The integer with a sign and a magnitude. -/
def signed (negative : Bool) (n : ℕ) : ℤ :=
  if negative then -n else n

namespace Numeral

/-- The rational number that a numeral denotes. -/
def value (n : Numeral) : ℚ :=
  n.mantissa * 10 ^ n.exponent

/-! ### The digits of a numeral -/

theorem isDigit_of_readMantissa {s whole fraction rest : List Char}
    (h : readMantissa s = (whole, fraction, rest)) {c : Char} (hc : c ∈ whole ++ fraction) :
    c.isDigit = true := by
  have hwhile : ∀ cs : List Char, ∀ x ∈ cs.takeWhile Char.isDigit, x.isDigit = true :=
    fun cs x hx => List.mem_takeWhile_imp hx
  unfold readMantissa at h
  dsimp only at h
  split at h
  · cases h
    rcases List.mem_append.1 hc with hc | hc
    · exact hwhile _ _ hc
    · exact hwhile _ _ hc
  · cases h
    rw [List.append_nil] at hc
    exact hwhile _ _ hc

/-- The numeral with these digits. -/
def ofDigits (digits : List Char) (exponent : ℤ) : Numeral :=
  let significant := digits.dropWhile (· == '0')
  ⟨digitsValue significant, significant.length, exponent⟩

theorem value_ofDigits (digits : List Char) (e : ℤ) :
    (ofDigits digits e).value = rowValue digits * 10 ^ e := by
  simp only [value, ofDigits, digitsValue_eq, rowValue_dropWhile]

/-- The mantissa has as many digits as the numeral says. -/
def Measured (n : Numeral) : Prop :=
  n.mantissa ≠ 0 → 0 < n.length ∧ 10 ^ (n.length - 1) ≤ n.mantissa ∧ n.mantissa < 10 ^ n.length

theorem measured_ofDigits {digits : List Char} (hdigits : ∀ c ∈ digits, c.isDigit = true)
    (e : ℤ) : (ofDigits digits e).Measured := by
  intro hn
  simp only [ofDigits, digitsValue_eq] at hn ⊢
  have hne : digits.dropWhile (· == '0') ≠ [] := by
    intro hnil
    rw [hnil] at hn
    exact hn rfl
  exact ⟨List.length_pos_iff.2 hne, pow_le_rowValue_dropWhile hdigits hne,
    rowValue_lt fun c hc => hdigits c ((List.dropWhile_sublist _).subset hc)⟩

theorem measured_of_read? {s : List Char} {n : Numeral} (h : read? s = some n) : n.Measured := by
  rw [read?] at h
  rcases hmantissa : readMantissa s with ⟨whole, fraction, rest⟩
  simp only [hmantissa] at h
  split at h
  · cases h
  next =>
    obtain ⟨e, -, rfl⟩ := Option.map_eq_some_iff.1 h
    exact measured_ofDigits (fun c hc => isDigit_of_readMantissa hmantissa hc) _

/-! ### Reading parts -/

/-- A point and digits behind it, if there are any. -/
def pointed : List Char → List Char
  | [] => []
  | fraction => '.' :: fraction

theorem pointed_of_ne_nil {cs : List Char} (h : cs ≠ []) : pointed cs = '.' :: cs := by
  cases cs with
  | nil => exact absurd rfl h
  | cons c cs => rfl

/-- A mantissa with a point is read up to what is not a digit. -/
theorem readMantissa_pointed {whole fraction rest : List Char}
    (hwhole : ∀ c ∈ whole, c.isDigit = true) (hfraction : ∀ c ∈ fraction, c.isDigit = true)
    (hrest : ∀ c ∈ rest.head?, c.isDigit = false) :
    readMantissa (whole ++ '.' :: (fraction ++ rest)) = (whole, fraction, rest) := by
  obtain ⟨htake, hdrop⟩ := Text.run_append hfraction hrest
  have hpoint : ∀ c ∈ ('.' :: (fraction ++ rest)).head?, c.isDigit = false := by simp
  obtain ⟨htake', hdrop'⟩ := Text.run_append hwhole hpoint
  unfold readMantissa
  simp only [htake', hdrop', htake, hdrop]

/-- A mantissa is read up to what is neither a digit nor a point. -/
theorem readMantissa_parts {whole fraction rest : List Char}
    (hwhole : ∀ c ∈ whole, c.isDigit = true) (hfraction : ∀ c ∈ fraction, c.isDigit = true)
    (hrest : ∀ c ∈ rest.head?, c.isDigit = false ∧ c ≠ '.') :
    readMantissa (whole ++ pointed fraction ++ rest) = (whole, fraction, rest) := by
  have hend : ∀ c ∈ rest.head?, c.isDigit = false := fun c hc => (hrest c hc).1
  cases fraction with
  | nil =>
      obtain ⟨htake, hdrop⟩ := Text.run_append hwhole hend
      rw [pointed, List.append_nil]
      unfold readMantissa
      rw [htake, hdrop]
      split
      next tail => exact absurd rfl (hrest '.' rfl).2
      next => rfl
  | cons d ds =>
      rw [pointed_of_ne_nil (List.cons_ne_nil d ds), List.append_assoc, List.cons_append]
      exact readMantissa_pointed hwhole hfraction hend

theorem readExponent_cons (c : Char) (s : List Char) :
    readExponent (c :: s) = if c = 'e' ∨ c = 'E' then
      (readExponent.readDigits (readSign s).2).map fun n => signed (readSign s).1 n else none := by
  unfold readExponent readSign
  dsimp only
  split
  · split
    all_goals
      generalize readExponent.readDigits _ = n
      cases n <;> rfl
  · rfl

/-- An exponent with at most one digit behind the limit is read in full. -/
theorem exponentValue_eq {ds : List Char} (h : rowValue ds < 10 * exponentLimit) :
    exponentValue ds = rowValue ds := by
  have hfold : ∀ (ds : List Char) (n : ℕ),
      ds.foldl (fun n c => 10 * n + digitValue c) n < 10 * exponentLimit →
        ds.foldl (fun n c => if n < exponentLimit then 10 * n + digitValue c else n) n =
          ds.foldl (fun n c => 10 * n + digitValue c) n := by
    intro ds
    induction ds with
    | nil => exact fun _ _ => rfl
    | cons c ds ih =>
        intro n hn
        rw [List.foldl_cons] at hn
        have hlimit : n < exponentLimit := by
          have hmany := Nat.le_mul_of_pos_right (10 * n + digitValue c)
            (Nat.pow_pos (n := ds.length) (show 0 < 10 by decide))
          rw [foldl_digits, tenTo, Nat.pow_eq] at hn
          omega
        rw [List.foldl_cons, List.foldl_cons, if_pos hlimit]
        exact ih _ hn
  exact hfold ds 0 h

/-- An exponent beyond the limit is read beyond it. -/
theorem exponentLimit_le_exponentValue {ds : List Char} (h : exponentLimit ≤ rowValue ds) :
    exponentLimit ≤ exponentValue ds := by
  have hkeep : ∀ (ds : List Char) {n : ℕ}, exponentLimit ≤ n →
      ds.foldl (fun n c => if n < exponentLimit then 10 * n + digitValue c else n) n = n := by
    intro ds n hn
    induction ds with
    | nil => rfl
    | cons c ds ih => rw [List.foldl_cons, if_neg (Nat.not_lt_of_le hn), ih]
  have hfold : ∀ (ds : List Char) (n : ℕ),
      exponentLimit ≤ ds.foldl (fun n c => 10 * n + digitValue c) n →
        exponentLimit ≤
          ds.foldl (fun n c => if n < exponentLimit then 10 * n + digitValue c else n) n := by
    intro ds
    induction ds with
    | nil => exact fun _ hn => hn
    | cons c ds ih =>
        intro n hn
        by_cases hlimit : n < exponentLimit
        · rw [List.foldl_cons, if_pos hlimit]
          exact ih _ hn
        · rw [hkeep _ (Nat.le_of_not_lt hlimit)]
          exact Nat.le_of_not_lt hlimit
  exact hfold ds 0 h

theorem readDigits_eq {ds : List Char} (hne : ds ≠ []) (hds : ∀ c ∈ ds, c.isDigit = true)
    (hlimit : rowValue ds < 10 * exponentLimit) :
    readExponent.readDigits ds = some (rowValue ds) := by
  rw [readExponent.readDigits, if_pos ⟨hne, List.all_eq_true.2 hds⟩, exponentValue_eq hlimit]

end Numeral

namespace Decimal

open Numeral (pointed pointed_of_ne_nil)

/-! ### Layouts -/

/-- The digits in front of and behind the point, and the exponent that is written. -/
structure Layout where
  whole : List ℕ
  fraction : List ℕ
  exponent : Option ℤ

/-- An exponent with its sign. -/
def exponentText (width : ℕ) : Option ℤ → List Char
  | none => []
  | some e => 'E' :: (if e < 0 then '-' else '+') :: (paddedText width e.natAbs).toList

namespace Layout

def chars (width : ℕ) (l : Layout) : List Char :=
  l.whole.map Nat.digitChar ++ pointed (l.fraction.map Nat.digitChar) ++
    exponentText width l.exponent

def value (l : Layout) : ℚ :=
  numberOf (l.whole ++ l.fraction) * 10 ^ (l.exponent.getD 0 - l.fraction.length)

end Layout

/-- The layout of a decimal without an exponent. -/
def positionalLayout (d : Decimal) : Layout :=
  if d.exponent < 0 then ⟨[0], List.replicate (-d.exponent - 1).toNat 0 ++ d.digits, none⟩
  else if d.digits.length ≤ d.exponent.toNat + 1 then
    ⟨d.digits ++ List.replicate (d.exponent.toNat + 1 - d.digits.length) 0, [], none⟩
  else ⟨d.digits.take (d.exponent.toNat + 1), d.digits.drop (d.exponent.toNat + 1), none⟩

/-- The layout of a decimal with an exponent. -/
def scientificLayout (d : Decimal) : Layout :=
  ⟨d.digits.take 1, d.digits.drop 1, some d.exponent⟩

/-- How a decimal is laid out. -/
def layout (t : NumberText) (d : Decimal) : Layout :=
  if d.isPositional t then d.positionalLayout else d.scientificLayout

theorem toList_digitText (ds : List ℕ) : (digitText ds).toList = ds.map Nat.digitChar :=
  String.toList_ofList

theorem toList_zeroText (n : ℕ) : (zeroText n).toList = (List.replicate n 0).map Nat.digitChar := by
  rw [zeroText, String.toList_ofList, List.map_replicate]
  rfl

theorem pointed_drop {ds : List ℕ} {n : ℕ} (h : ¬ds.length ≤ n) :
    pointed ((ds.drop n).map Nat.digitChar) = '.' :: (ds.drop n).map Nat.digitChar := by
  apply pointed_of_ne_nil
  rw [ne_eq, List.map_eq_nil_iff, List.drop_eq_nil_iff]
  exact h

theorem toList_positional {d : Decimal} (hd : d.digits ≠ []) (width : ℕ) :
    d.positional.toList = d.signText.toList ++ d.positionalLayout.chars width := by
  rw [positional, positionalLayout]
  by_cases hneg : d.exponent < 0
  · have hne : List.replicate (-d.exponent - 1).toNat 0 ++ d.digits ≠ [] :=
      List.append_ne_nil_of_right_ne_nil _ hd
    rw [if_pos hneg, if_pos hneg, Layout.chars, pointed_of_ne_nil (mt List.map_eq_nil_iff.1 hne)]
    simp only [exponentText, String.toList_append, toList_digitText, toList_zeroText,
      List.map_append, List.append_nil, List.append_assoc]
    rfl
  · rw [if_neg hneg, if_neg hneg]
    dsimp only
    by_cases hlong : d.digits.length ≤ d.exponent.toNat + 1
    · rw [if_pos hlong, if_pos hlong]
      simp only [Layout.chars, exponentText, String.toList_append, toList_digitText,
        toList_zeroText, List.map_append, List.append_nil, List.append_assoc, List.map_nil, pointed]
    · rw [if_neg hlong, if_neg hlong, Layout.chars, pointed_drop hlong]
      simp only [exponentText, String.toList_append, toList_digitText, List.append_nil,
        List.append_assoc]
      rfl

theorem toList_scientific (d : Decimal) (width : ℕ) :
    (d.scientific width).toList = d.signText.toList ++ d.scientificLayout.chars width := by
  have hpoint : (if d.digits.length ≤ 1 then "" else ".").toList ++
      (d.digits.drop 1).map Nat.digitChar = pointed ((d.digits.drop 1).map Nat.digitChar) := by
    by_cases hshort : d.digits.length ≤ 1
    · rw [if_pos hshort, List.drop_eq_nil_iff.2 hshort]
      rfl
    · rw [if_neg hshort, pointed_drop hshort]
      rfl
  have hsign : (if d.exponent < 0 then "-" else "+").toList =
      [if d.exponent < 0 then '-' else '+'] := by
    split <;> rfl
  rw [scientific, scientificLayout, Layout.chars, ← hpoint]
  simp only [exponentText, String.toList_append, toList_digitText, hsign, List.append_assoc]
  rfl

/-- A decimal is written in its layout. -/
theorem toList_general (t : NumberText) {d : Decimal} (hd : d.digits ≠ []) :
    (d.general t).toList = d.signText.toList ++ (d.layout t).chars t.exponentWidth := by
  rw [general, layout]
  split
  · exact toList_positional hd _
  · exact toList_scientific d _

theorem value_positionalLayout {d : Decimal} (hd : d.digits ≠ []) :
    d.positionalLayout.value = d.magnitude := by
  have hlength : 0 < d.digits.length := List.length_pos_iff.2 hd
  rw [positionalLayout, magnitude]
  split
  next hneg =>
    have hexp : (0 : ℤ) - ((-d.exponent - 1).toNat + d.digits.length : ℕ) =
        d.exponent - (d.digits.length - 1) := by omega
    have hnumber : numberOf ([0] ++ (List.replicate (-d.exponent - 1).toNat 0 ++ d.digits)) =
        numberOf d.digits := by
      rw [← numberOf_zeros_append (-d.exponent - 1).toNat d.digits]
      exact numberOf_zeros_append 1 _
    rw [Layout.value, hnumber, List.length_append, List.length_replicate, Option.getD_none, hexp]
  next hpos =>
    split
    next hlong =>
      have hexp : ((d.exponent.toNat + 1 - d.digits.length : ℕ) : ℤ) + 0 =
          d.exponent - (d.digits.length - 1) := by omega
      rw [Layout.value, List.append_nil, numberOf_append_zeros, ← hexp, add_zero, zpow_natCast]
      push_cast
      simp
    next hshort =>
      have hexp : (0 : ℤ) - (d.digits.length - (d.exponent.toNat + 1) : ℕ) =
          d.exponent - (d.digits.length - 1) := by omega
      rw [Layout.value, List.take_append_drop, List.length_drop, Option.getD_none, hexp]

theorem value_scientificLayout {d : Decimal} (hd : d.digits ≠ []) :
    d.scientificLayout.value = d.magnitude := by
  have hlength : 0 < d.digits.length := List.length_pos_iff.2 hd
  have hexp : ((d.digits.length - 1 : ℕ) : ℤ) = d.digits.length - 1 := by omega
  rw [Layout.value, scientificLayout, List.take_append_drop, List.length_drop, Option.getD_some,
    hexp, magnitude]

/-- The layout of a decimal denotes its number. -/
theorem value_layout (t : NumberText) {d : Decimal} (hd : d.digits ≠ []) :
    (d.layout t).value = d.magnitude := by
  rw [layout]
  split
  · exact value_positionalLayout hd
  · exact value_scientificLayout hd

/-! ### Reading a layout -/

theorem toList_paddedText (width n : ℕ) :
    (paddedText width n).toList =
      (List.replicate (width - (digitsOf n).length) 0 ++ digitsOf n).map Nat.digitChar := by
  rw [paddedText, String.toList_append, toList_zeroText, toList_digitText, List.map_append]

theorem isDigit_of_mem_map {ds : List ℕ} (h : ∀ d ∈ ds, d < 10) {c : Char}
    (hc : c ∈ ds.map Nat.digitChar) : c.isDigit = true := by
  obtain ⟨d, hd, rfl⟩ := List.mem_map.1 hc
  rw [Nat.isDigit_digitChar]
  exact decide_eq_true (h d hd)

theorem lt_ten_of_mem_padded {k n d : ℕ} (h : d ∈ List.replicate k 0 ++ digitsOf n) : d < 10 :=
  (List.mem_append.1 h).elim lt_ten_of_mem_zeros lt_ten_of_mem_digitsOf

theorem isDigit_paddedText {width n : ℕ} {c : Char} (hc : c ∈ (paddedText width n).toList) :
    c.isDigit = true := by
  rw [toList_paddedText] at hc
  exact isDigit_of_mem_map (fun d hd => lt_ten_of_mem_padded hd) hc

theorem rowValue_paddedText (width n : ℕ) :
    Numeral.rowValue (paddedText width n).toList = n := by
  rw [toList_paddedText, Numeral.rowValue_map_digitChar fun d hd => lt_ten_of_mem_padded hd,
    numberOf_zeros_append, numberOf_digitsOf]

/-- An exponent that is written is read, unless it is beyond every number. -/
theorem readExponent_exponentText (width : ℕ) {exponent : Option ℤ}
    (h : ∀ e ∈ exponent, e.natAbs < Numeral.exponentLimit) :
    Numeral.readExponent (exponentText width exponent) = some (exponent.getD 0) := by
  cases exponent with
  | none => rfl
  | some e =>
      have hne : (paddedText width e.natAbs).toList ≠ [] := by
        rw [toList_paddedText, ne_eq, List.map_eq_nil_iff, List.append_eq_nil_iff, not_and]
        intro _ hnil
        have hcount := length_digitsOf e.natAbs
        rw [hnil, digitCount_eq] at hcount
        exact Nat.succ_ne_zero _ hcount.symm
      have hlimit :
          Numeral.rowValue (paddedText width e.natAbs).toList < 10 * Numeral.exponentLimit := by
        rw [rowValue_paddedText]
        exact (h e rfl).trans (by decide)
      have hread : Numeral.readExponent.readDigits (paddedText width e.natAbs).toList =
          some e.natAbs := by
        rw [Numeral.readDigits_eq hne (fun c hc => isDigit_paddedText hc) hlimit,
          rowValue_paddedText]
      rw [exponentText, Option.getD_some]
      by_cases hneg : e < 0
      · have habs : -(e.natAbs : ℤ) = e := by omega
        rw [if_pos hneg, Numeral.readExponent, if_pos (.inr rfl), hread]
        exact congrArg some habs
      · have habs : (e.natAbs : ℤ) = e := by omega
        rw [if_neg hneg, Numeral.readExponent, if_pos (.inr rfl), hread]
        exact congrArg some habs

/-- A layout is read as a numeral that denotes the same number. -/
theorem Layout.exists_read? {l : Layout} (width : ℕ) (hdigits : ∀ d ∈ l.whole ++ l.fraction, d < 10)
    (hne : l.whole ++ l.fraction ≠ [])
    (hexponent : ∀ e ∈ l.exponent, e.natAbs < Numeral.exponentLimit) :
    ∃ n, Numeral.read? (l.chars width) = some n ∧ n.value = l.value := by
  have hend : ∀ c ∈ (exponentText width l.exponent).head?, c.isDigit = false ∧ c ≠ '.' := by
    intro c hc
    cases he : l.exponent with
    | none =>
        rw [he] at hc
        cases hc
    | some e =>
        rw [he] at hc
        obtain rfl : 'E' = c := Option.some.inj hc
        decide
  have hmantissa : Numeral.readMantissa (l.chars width) = (l.whole.map Nat.digitChar,
      l.fraction.map Nat.digitChar, exponentText width l.exponent) := by
    refine Numeral.readMantissa_parts ?_ ?_ hend
    · exact fun c hc => isDigit_of_mem_map (fun d hd => hdigits d (List.mem_append_left _ hd)) hc
    · exact fun c hc => isDigit_of_mem_map (fun d hd => hdigits d (List.mem_append_right _ hd)) hc
  have hsome : l.whole.map Nat.digitChar ++ l.fraction.map Nat.digitChar ≠ [] := by
    rw [← List.map_append, ne_eq, List.map_eq_nil_iff]
    exact hne
  refine ⟨Numeral.ofDigits (l.whole.map Nat.digitChar ++ l.fraction.map Nat.digitChar)
    (l.exponent.getD 0 - (l.fraction.map Nat.digitChar).length), ?_, ?_⟩
  · rw [Numeral.read?, hmantissa]
    simp only [if_neg hsome, readExponent_exponentText width hexponent, Option.map_some]
    rfl
  · rw [Numeral.value_ofDigits, Layout.value, ← List.map_append,
      Numeral.rowValue_map_digitChar hdigits, List.length_map]

end Decimal

end Scriptlet
