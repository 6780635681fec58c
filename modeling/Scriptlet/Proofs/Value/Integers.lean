import Scriptlet.Proofs.Decimal.RoundTrip
import Scriptlet.Proofs.Text.Blank
import Scriptlet.Value.Reader

namespace Scriptlet

/-!
# Texts of integers

A text is read as an integer exactly if, without the blanks at its ends, it is an optional sign and
digits. Then the number is the one that the digits denote, or out of range.
-/

open Text (Stripped trim)

/-- An optional sign, and whether it makes a number negative. -/
inductive SignText : List Char → Bool → Prop
  | absent : SignText [] false
  | plus : SignText ['+'] false
  | minus : SignText ['-'] true

/-- One or more decimal digits. -/
structure IsDigits (ds : List Char) : Prop where
  ne_nil : ds ≠ []
  digit : ∀ c ∈ ds, c.isDigit = true

/-- The text of an integer, without blanks. -/
inductive WritesInteger : List Char → ℤ → Prop
  | text {sign digits : List Char} {negative : Bool} (hsign : SignText sign negative)
      (hdigits : IsDigits digits) :
      WritesInteger (sign ++ digits) (signed negative (Numeral.rowValue digits))

/-- The types of integers. -/
inductive IntegerType where
  | byte
  | short
  | int
  | long

namespace IntegerType

def basicType : IntegerType → BasicType
  | byte => .byte
  | short => .short
  | int => .int
  | long => .long

def least : IntegerType → ℤ
  | byte => 0
  | short => -2 ^ 15
  | int => -2 ^ 31
  | long => -2 ^ 63

def greatest : IntegerType → ℤ
  | byte => 2 ^ 8 - 1
  | short => 2 ^ 15 - 1
  | int => 2 ^ 31 - 1
  | long => 2 ^ 63 - 1

/-- Whether an integer is in the range of the type. -/
def Has (t : IntegerType) (n : ℤ) : Prop :=
  t.least ≤ n ∧ n ≤ t.greatest

/-- The value of the type that an integer in its range is. -/
def value : IntegerType → ℤ → Value
  | byte, n => .byte (UInt8.ofNat n.toNat)
  | short, n => .short (Int16.ofInt n)
  | int, n => .int (Int32.ofInt n)
  | long, n => .long (Int64.ofInt n)

/-- The integer that a value of the type is. -/
inductive Holds : IntegerType → Value → ℤ → Prop
  | byte (n : UInt8) : Holds .byte (.byte n) n.toNat
  | short (n : Int16) : Holds .short (.short n) n.toInt
  | int (n : Int32) : Holds .int (.int n) n.toInt
  | long (n : Int64) : Holds .long (.long n) n.toInt

end IntegerType

/-! ### Signs -/

section

variable {s sign body digits : List Char} {negative : Bool}

theorem readSign_append (hsign : SignText sign negative)
    (hbody : ∀ c ∈ body.head?, c ≠ '+' ∧ c ≠ '-') :
    readSign (sign ++ body) = (negative, body) := by
  cases hsign with
  | plus | minus => rfl
  | absent =>
      rw [List.nil_append]
      unfold readSign
      split
      · next t => exact absurd rfl (hbody '-' rfl).2
      · next t => exact absurd rfl (hbody '+' rfl).1
      · rfl

theorem exists_signText (s : List Char) :
    ∃ sign, SignText sign (readSign s).1 ∧ s = sign ++ (readSign s).2 := by
  unfold readSign
  split
  · exact ⟨['-'], .minus, rfl⟩
  · exact ⟨['+'], .plus, rfl⟩
  · exact ⟨[], .absent, rfl⟩

theorem IsDigits.head (h : IsDigits digits) : ∀ c ∈ digits.head?, c ≠ '+' ∧ c ≠ '-' := by
  intro c hc
  have hdigit := h.digit c (List.mem_of_mem_head? hc)
  exact ⟨ne_of_isDigit hdigit (by decide), ne_of_isDigit hdigit (by decide)⟩

theorem isDigits_iff : IsDigits digits ↔ digits ≠ [] ∧ digits.all Char.isDigit = true :=
  ⟨fun h => ⟨h.ne_nil, List.all_eq_true.2 h.digit⟩, fun h => ⟨h.1, List.all_eq_true.1 h.2⟩⟩

end

/-! ### Between bounds -/

/-- A text denotes an integer, with or without blanks at its ends. -/
def DenotesInteger (s : List Char) (n : ℤ) : Prop :=
  ∃ body, Stripped s body ∧ WritesInteger body n

section

variable {lo hi n m : ℤ} {s t : List Char}

theorem denotesInteger_iff : DenotesInteger s n ↔ WritesInteger (trim s) n := by
  simp only [DenotesInteger, Text.stripped_iff, exists_eq_left']

/-- The number of a text that denotes an integer is read if it is within the bounds. -/
theorem readInteger_of_denotes (h : DenotesInteger s n) :
    readInteger lo hi s = if lo ≤ n ∧ n ≤ hi then .ok n else .error .overflow := by
  obtain ⟨body, hbody, hn⟩ := h
  cases hn with
  | text hsign hdigits =>
      simp only [readInteger, hbody.trim_eq, readSign_append hsign hdigits.head,
        Numeral.digitsValue_eq]
      exact if_pos (isDigits_iff.1 hdigits)

/-- Every other text is malformed. -/
theorem readInteger_of_not_denotes (h : ¬∃ n, DenotesInteger s n) :
    readInteger lo hi s = .error .format := by
  obtain ⟨sign, hsign, hbody⟩ := exists_signText (trim s)
  have hdigits : ¬IsDigits (readSign (trim s)).2 := by
    intro hdigits
    refine h ⟨signed (readSign (trim s)).1 (Numeral.rowValue (readSign (trim s)).2), ?_⟩
    have htext := WritesInteger.text hsign hdigits
    rwa [← hbody, ← denotesInteger_iff] at htext
  rw [isDigits_iff] at hdigits
  exact if_neg hdigits

theorem readInteger_eq_ok_iff :
    readInteger lo hi s = .ok n ↔ DenotesInteger s n ∧ lo ≤ n ∧ n ≤ hi := by
  constructor
  · intro h
    by_cases hs : ∃ m, DenotesInteger s m
    · obtain ⟨m, hm⟩ := hs
      rw [readInteger_of_denotes hm] at h
      split at h
      · next hrange =>
          cases h
          exact ⟨hm, hrange⟩
      · cases h
    · rw [readInteger_of_not_denotes hs] at h
      cases h
  · rintro ⟨hs, hrange⟩
    rw [readInteger_of_denotes hs, if_pos hrange]

theorem readInteger_eq_overflow_iff :
    readInteger lo hi s = .error .overflow ↔ ∃ n, DenotesInteger s n ∧ ¬(lo ≤ n ∧ n ≤ hi) := by
  constructor
  · intro h
    by_cases hs : ∃ m, DenotesInteger s m
    · obtain ⟨m, hm⟩ := hs
      rw [readInteger_of_denotes hm] at h
      split at h
      · cases h
      · next hrange => exact ⟨m, hm, hrange⟩
    · rw [readInteger_of_not_denotes hs] at h
      cases h
  · rintro ⟨n, hs, hrange⟩
    rw [readInteger_of_denotes hs, if_neg hrange]

theorem readInteger_eq_format_iff :
    readInteger lo hi s = .error .format ↔ ¬∃ n, DenotesInteger s n := by
  constructor
  · rintro h ⟨n, hs⟩
    rw [readInteger_of_denotes hs] at h
    split at h <;> cases h
  · exact readInteger_of_not_denotes

/-! ### Long numbers -/

/-- The reading of an integer that computes no number of more than twenty significant digits and
takes them all for too large. -/
def readShortInteger (lo hi : ℤ) (s : List Char) : Except ReadError ℤ :=
  let (negative, digits) := readSign (trim s)
  let significant := digits.dropWhile (· == '0')
  if digits = [] ∨ ¬digits.all Char.isDigit then .error .format
  else if 20 < significant.length then .error .overflow
  else
    let n := signed negative (Numeral.rowValue significant)
    if n < lo ∨ hi < n then .error .overflow else .ok n

theorem lt_signed_or {negative : Bool} {k : ℕ} (hlo : -10 ^ 20 < lo) (hhi : hi < 10 ^ 20)
    (hk : 10 ^ 20 ≤ k) : ¬(lo ≤ signed negative k ∧ signed negative k ≤ hi) := by
  cases negative <;> simp only [signed, if_true, Bool.false_eq_true, if_false] <;> omega

/-- Numbers of more than twenty significant digits are out of range, so they need not be
computed. -/
theorem readInteger_eq_readShortInteger (hlo : -10 ^ 20 < lo) (hhi : hi < 10 ^ 20)
    (s : List Char) : readInteger lo hi s = readShortInteger lo hi s := by
  rw [readInteger, readShortInteger]
  generalize readSign (trim s) = sign
  obtain ⟨negative, digits⟩ := sign
  dsimp only
  by_cases hdigits : digits ≠ [] ∧ digits.all Char.isDigit = true
  · have hvalue : Numeral.digitsValue digits =
        Numeral.rowValue (digits.dropWhile (· == '0')) := by
      rw [Numeral.digitsValue_eq, Numeral.rowValue_dropWhile]
    have hformat : ¬(digits = [] ∨ ¬digits.all Char.isDigit = true) := by tauto
    simp only [if_pos hdigits, if_neg hformat, hvalue]
    set n := signed negative (Numeral.rowValue (digits.dropWhile (· == '0')))
    change (if lo ≤ n ∧ n ≤ hi then Except.ok n else .error ReadError.overflow) = _
    split
    · next hrange =>
        have hshort : ¬20 < (digits.dropWhile (· == '0')).length := by
          intro hlong
          have hne : digits.dropWhile (· == '0') ≠ [] := List.ne_nil_of_length_pos (by omega)
          have hmany := Numeral.pow_le_rowValue_dropWhile (List.all_eq_true.1 hdigits.2) hne
          have hpow : 10 ^ 20 ≤ 10 ^ ((digits.dropWhile (· == '0')).length - 1) :=
            Nat.pow_le_pow_right (by decide) (by omega)
          exact lt_signed_or hlo hhi (hpow.trans hmany) hrange
        rw [if_neg hshort, if_neg (by omega)]
    · next hrange =>
        split
        · rfl
        · rw [if_pos (by omega)]
  · rw [if_neg hdigits, if_pos (by tauto)]

end

/-! ### Values -/

namespace IntegerType

variable {t : IntegerType} {n : ℤ} {v : Value}

theorem readValue_eq (t : IntegerType) (s : String) :
    readValue s t.basicType = (readInteger t.least t.greatest s.toList).map t.value := by
  cases t <;> rfl

theorem holds_value (h : t.Has n) : t.Holds (t.value n) n := by
  obtain ⟨hleast, hgreatest⟩ := h
  replace hgreatest := Int.lt_add_one_of_le hgreatest
  cases t with
  | byte =>
      have hn : ((UInt8.ofNat n.toNat).toNat : ℤ) = n := by
        simp only [least, greatest] at hleast hgreatest
        rw [UInt8.toNat_ofNat']
        omega
      have hholds := Holds.byte (UInt8.ofNat n.toNat)
      rwa [hn] at hholds
  | short =>
      have hn := Int16.toInt_ofInt_of_le hleast hgreatest
      have hholds := Holds.short (Int16.ofInt n)
      rwa [hn] at hholds
  | int =>
      have hn := Int32.toInt_ofInt_of_le hleast hgreatest
      have hholds := Holds.int (Int32.ofInt n)
      rwa [hn] at hholds
  | long =>
      have hn := Int64.toInt_ofInt_of_le hleast hgreatest
      have hholds := Holds.long (Int64.ofInt n)
      rwa [hn] at hholds

theorem Holds.eq_value (h : t.Holds v n) : v = t.value n := by
  cases h <;> simp [value]

/-- A text is read as a value exactly if it denotes an integer of the type. -/
theorem readValue_eq_ok_iff {s : String} :
    readValue s t.basicType = .ok v ↔ ∃ n, DenotesInteger s.toList n ∧ t.Has n ∧ t.Holds v n := by
  rw [readValue_eq]
  constructor
  · intro h
    cases hn : readInteger t.least t.greatest s.toList with
    | error e =>
        rw [hn] at h
        cases h
    | ok n =>
        rw [hn] at h
        cases h
        obtain ⟨htext, hrange⟩ := readInteger_eq_ok_iff.1 hn
        exact ⟨n, htext, hrange, holds_value hrange⟩
  · rintro ⟨n, htext, hrange, hv⟩
    rw [readInteger_eq_ok_iff.2 ⟨htext, hrange⟩, hv.eq_value]
    rfl

/-- An error of the reader is the error of reading the integer. -/
theorem readValue_eq_error_iff {s : String} {e : ReadError} :
    readValue s t.basicType = .error e ↔ readInteger t.least t.greatest s.toList = .error e := by
  rw [readValue_eq]
  cases readInteger t.least t.greatest s.toList <;> simp [Except.map]

theorem least_greatest (t : IntegerType) : -10 ^ 20 < t.least ∧ t.greatest < 10 ^ 20 := by
  cases t <;> decide

end IntegerType

/-- The texts of integers, for each type of integers: which are read and as what, which are out of
range and which are malformed. More than twenty significant digits need not be computed. -/
theorem readValue_integer (t : IntegerType) (s : String) :
    (∀ v, readValue s t.basicType = .ok v ↔
      ∃ n, DenotesInteger s.toList n ∧ t.Has n ∧ t.Holds v n) ∧
    (readValue s t.basicType = .error .overflow ↔ ∃ n, DenotesInteger s.toList n ∧ ¬t.Has n) ∧
    (readValue s t.basicType = .error .format ↔ ¬∃ n, DenotesInteger s.toList n) ∧
    readValue s t.basicType = (readShortInteger t.least t.greatest s.toList).map t.value := by
  refine ⟨fun v => IntegerType.readValue_eq_ok_iff, ?overflow, ?format, ?short⟩
  case overflow => rw [IntegerType.readValue_eq_error_iff, readInteger_eq_overflow_iff]; rfl
  case format => rw [IntegerType.readValue_eq_error_iff, readInteger_eq_format_iff]
  case short =>
    obtain ⟨hleast, hgreatest⟩ := t.least_greatest
    rw [IntegerType.readValue_eq, readInteger_eq_readShortInteger hleast hgreatest]

end Scriptlet
