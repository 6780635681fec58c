import Scriptlet.Machine.Conversion
import Scriptlet.Proofs.Value.Integers

namespace Scriptlet.Machine

/-!
# Conversions that change nothing

The conversion routine of a type leaves the values of the type as they are, and a character that is
converted to an integer is converted back to itself. The exceptions are the characters with codes of
more than sixteen bits: they are out of the range of their own type.
-/

/-- A character whose code has more than sixteen bits. -/
def IsWide (c : Char) : Prop :=
  0xFFFF < c.toNat

/-- A value that is such a character. -/
inductive HoldsWide : Value → Prop
  | char {c : Char} (h : IsWide c) : HoldsWide (.char c)

/-- A type that the conversion routines check the range of. -/
inductive IsRanged : DataType → Prop
  | integer (t : IntegerType) : IsRanged t.basicType.toDataType
  | char : IsRanged .char

section

variable {c : Char} {v : Value} {t u : IntegerType} {target : DataType} {n : ℤ}

/-! ### Integers -/

theorem has_of_holds (h : t.Holds v n) : t.Has n := by
  cases h with
  | byte n =>
      have hless := n.toNat_lt
      exact ⟨Int.natCast_nonneg _, by simp only [IntegerType.greatest]; omega⟩
  | short n => exact ⟨n.le_toInt, Int.le_of_lt_add_one n.toInt_lt⟩
  | int n => exact ⟨n.le_toInt, Int.le_of_lt_add_one n.toInt_lt⟩
  | long n => exact ⟨n.le_toInt, Int.le_of_lt_add_one n.toInt_lt⟩

/-- An integer in the range of a type becomes a value of the type. -/
theorem integral_of_has (h : t.Has n) : integral n t.basicType.toDataType = .ok (t.value n) := by
  cases t with
  | byte =>
      have hword : UInt8.ofInt n = UInt8.ofNat n.toNat := by
        have hless : n < 2 ^ 8 := Int.lt_add_one_of_le h.2
        rw [UInt8.ofInt, Int.emod_eq_of_lt h.1 hless]
      rw [IntegerType.value, ← hword]
      exact if_pos h
  | short => exact if_pos h
  | int => exact if_pos h
  | long => exact if_pos h

/-- The conversion of an integer checks its range. -/
theorem convertTo_of_holds (h : t.Holds v n) (htarget : IsRanged target) :
    convertTo v target = integral n target := by
  cases h with
  | byte n =>
      have hpromoted : (Int32.ofNat n.toNat).toInt = n.toNat :=
        Int32.toInt_ofNat_of_lt (n.toNat_lt.trans (by decide))
      rw [← hpromoted]
      cases htarget with
      | integer u => cases u <;> rfl
      | char => rfl
  | short n =>
      have hpromoted : n.toInt32.toInt = n.toInt := Int16.toInt_toInt32 n
      rw [← hpromoted]
      cases htarget with
      | integer u => cases u <;> rfl
      | char => rfl
  | int n | long n =>
      cases htarget with
      | integer u => cases u <;> rfl
      | char => rfl

/-- An integer of a type is converted to every type that has it, its own to begin with. -/
theorem convertTo_integer (h : t.Holds v n) (hn : u.Has n) :
    convertTo v u.basicType.toDataType = .ok (u.value n) := by
  rw [convertTo_of_holds h (.integer u), integral_of_has hn]

theorem convertTo_own_integer (h : t.Holds v n) :
    convertTo v t.basicType.toDataType = .ok v := by
  rw [convertTo_integer h (has_of_holds h), h.eq_value]

/-! ### Characters -/

theorem charOfCode_toNat (c : Char) : charOfCode c.toNat = c := by
  have hvalid : c.toNat.isValidChar := c.valid
  rw [charOfCode, if_pos hvalid]
  exact Char.ofNat_toNat c

/-- A code becomes its character if it has at most sixteen bits. -/
theorem integral_of_not_isWide (h : ¬IsWide c) : integral c.toNat .char = .ok (.char c) := by
  have hrange : (0 : ℤ) ≤ c.toNat ∧ (c.toNat : ℤ) ≤ 65535 := by
    unfold IsWide at h
    omega
  have hchar : charOfCode (c.toNat : ℤ).toNat = c := charOfCode_toNat c
  simp only [integral, if_pos hrange, hchar]

theorem integral_of_isWide (h : IsWide c) :
    integral c.toNat .char = .error (.failed (.outOfRange .char)) := by
  refine if_neg ?_
  unfold IsWide at h
  omega

theorem convertTo_char (c : Char) (htarget : IsRanged target) :
    convertTo (.char c) target = integral c.toNat target := by
  cases htarget with
  | integer u => cases u <;> rfl
  | char => rfl

/-- Every code is an `int` and a `long`. -/
theorem has_toNat (c : Char) (ht : t = .int ∨ t = .long) : t.Has c.toNat := by
  have hcode : c.toNat < 0x110000 := by
    have hvalid : c.toNat.isValidChar := c.valid
    unfold Nat.isValidChar at hvalid
    omega
  obtain rfl | rfl := ht
  · exact ⟨by simp only [IntegerType.least]; omega, by simp only [IntegerType.greatest]; omega⟩
  · exact ⟨by simp only [IntegerType.least]; omega, by simp only [IntegerType.greatest]; omega⟩

/-! ### All values -/

theorem convertTo_own {t : BasicType} (h : v.basicType? = some t) (hwide : ¬HoldsWide v) :
    convertTo v t.toDataType = .ok v := by
  cases v with
  | void | null | exception => cases h
  | bool | string => cases h; rfl
  | byte n => cases h; exact convertTo_own_integer (.byte n)
  | short n => cases h; exact convertTo_own_integer (.short n)
  | int n => cases h; exact convertTo_own_integer (.int n)
  | long n => cases h; exact convertTo_own_integer (.long n)
  | float x | double x => cases h; rfl
  | char c =>
      cases h
      rw [BasicType.toDataType, convertTo_char c .char]
      exact integral_of_not_isWide fun hc => hwide (.char hc)

theorem convertTo_of_holdsWide {t : BasicType} (h : v.basicType? = some t) (hwide : HoldsWide v) :
    convertTo v t.toDataType = .error (.failed (.outOfRange .char)) := by
  cases hwide with
  | @char c hc =>
      cases h
      exact (convertTo_char c .char).trans (integral_of_isWide hc)

/-- The integer that a character is converted to is its code. -/
theorem exists_code (c : Char) (ht : t = .int ∨ t = .long) :
    ∃ code, convertTo (.char c) t.basicType.toDataType = .ok code ∧ t.Holds code c.toNat := by
  have hcode := has_toNat c ht
  refine ⟨t.value c.toNat, ?_, IntegerType.holds_value hcode⟩
  rw [convertTo_char c (.integer t), integral_of_has hcode]

/-- The value `v` that is converted to its own type and the character `c` that is converted to an
integer and back stay what they are exactly if they are no characters with codes of more than
sixteen bits. Those are out of range. -/
theorem convertTo_identity (v : Value) (c : Char) :
    (∀ t, v.basicType? = some t →
      (convertTo v t.toDataType = .ok v ↔ ¬HoldsWide v) ∧
      (HoldsWide v → convertTo v t.toDataType = .error (.failed (.outOfRange .char)))) ∧
    ∀ t, t = IntegerType.int ∨ t = IntegerType.long →
      ∃ code, convertTo (.char c) t.basicType.toDataType = .ok code ∧ t.Holds code c.toNat ∧
        (convertTo code .char = .ok (.char c) ↔ ¬IsWide c) ∧
        (IsWide c → convertTo code .char = .error (.failed (.outOfRange .char))) := by
  refine ⟨fun t h => ⟨⟨fun hself hwide => ?_, convertTo_own h⟩, convertTo_of_holdsWide h⟩,
    fun t ht => ?_⟩
  · rw [convertTo_of_holdsWide h hwide] at hself
    cases hself
  · obtain ⟨code, hconvert, hholds⟩ := exists_code c ht
    refine ⟨code, hconvert, hholds, ?_⟩
    rw [convertTo_of_holds hholds .char]
    refine ⟨⟨fun hback hc => ?_, integral_of_not_isWide⟩, integral_of_isWide⟩
    rw [integral_of_isWide hc] at hback
    cases hback

/-- An emoji is out of the range of characters, directly and by way of its code. -/
theorem convertTo_identity_emoji :
    convertTo (.char '😀') .char ≠ .ok (.char '😀') ∧
      ∃ code, convertTo (.char '😀') .int = .ok code ∧ convertTo code .char ≠ .ok (.char '😀') := by
  have hwide : IsWide '😀' := by
    unfold IsWide
    decide
  obtain ⟨code, hconvert, hholds⟩ := exists_code '😀' (t := .int) (.inl rfl)
  refine ⟨?_, code, hconvert, ?_⟩
  · rw [convertTo_char '😀' .char, integral_of_isWide hwide]
    nofun
  · rw [convertTo_of_holds hholds .char, integral_of_isWide hwide]
    nofun

end

end Scriptlet.Machine
