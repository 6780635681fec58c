import Scriptlet.Proofs.Binary.Encoding
import Scriptlet.Proofs.Decimal.RoundTrip
import Scriptlet.Proofs.Text.Blank
import Scriptlet.Value.Reader

namespace Scriptlet

/-!
# Values that are shown and read

The text of every value of a basic type, read as that type, is the value again. The text of a finite
number denotes exactly its shortest decimal.
-/

/-! ### Texts without blanks -/

namespace Text

/-- A text of characters that are no blanks. -/
def IsSolid (s : List Char) : Prop :=
  ∀ c ∈ s, isBlank c = false

theorem trim_of_isSolid {s : List Char} (h : IsSolid s) : trim s = s :=
  (stripped_self (fun c hc => h c (List.mem_of_mem_head? hc))
    fun c hc => h c (List.mem_of_mem_getLast? hc)).trim_eq

theorem isBlank_digit {c : Char} (h : c.isDigit = true) : isBlank c = false := by
  obtain ⟨hlow, hhigh⟩ := Numeral.toNat_of_isDigit h
  simp only [isBlank, blankRanges, List.any_cons, List.any_nil, Bool.or_false, Bool.or_eq_false_iff,
    Bool.and_eq_false_iff, decide_eq_false_iff_not]
  omega

theorem isSolid_digits {s : List Char} (h : ∀ c ∈ s, c.isDigit = true) : IsSolid s :=
  fun c hc => isBlank_digit (h c hc)

theorem isSolid_append {s t : List Char} (hs : IsSolid s) (ht : IsSolid t) : IsSolid (s ++ t) :=
  fun c hc => (List.mem_append.1 hc).elim (hs c) (ht c)

theorem isSolid_cons {c : Char} {s : List Char} (hc : isBlank c = false) (hs : IsSolid s) :
    IsSolid (c :: s) := by
  intro x hx
  rcases List.mem_cons.1 hx with rfl | hx
  · exact hc
  · exact hs x hx

theorem isSolid_nil : IsSolid [] :=
  fun _ hc => absurd hc List.not_mem_nil

end Text

open Text (IsSolid trim_of_isSolid isSolid_digits isSolid_append isSolid_cons isSolid_nil)

/-! ### Integers -/

theorem isDigit_toDigits {n : ℕ} {c : Char} (hc : c ∈ Nat.toDigits 10 n) : c.isDigit = true :=
  Nat.isDigit_of_mem_toDigits (by decide) (by decide) hc

/-- An integer is written with its digits behind its sign. -/
theorem toList_repr (n : ℤ) :
    n.repr.toList =
      if n < 0 then '-' :: Nat.toDigits 10 n.natAbs else Nat.toDigits 10 n.natAbs := by
  rw [Int.repr_eq_if]
  by_cases hn : 0 ≤ n
  · have habs : n.toNat = n.natAbs := by omega
    rw [if_pos hn, if_neg (by omega), Nat.repr_eq_ofList_toDigits, String.toList_ofList, habs]
  · have habs : (-n).toNat = n.natAbs := by omega
    rw [if_neg hn, if_pos (by omega), String.toList_append, habs, Nat.repr_eq_ofList_toDigits]
    simp only [String.toList_ofList]
    rfl

theorem readSign_repr (n : ℤ) :
    readSign n.repr.toList = (decide (n < 0), Nat.toDigits 10 n.natAbs) := by
  rw [toList_repr]
  by_cases hn : n < 0
  · rw [if_pos hn, decide_eq_true hn]
    rfl
  · obtain ⟨c, cs, hcs⟩ := List.exists_cons_of_ne_nil (@Nat.toDigits_ne_nil n.natAbs 10)
    have hc : c.isDigit = true := isDigit_toDigits (hcs ▸ List.mem_cons_self)
    rw [if_neg hn, hcs, readSign_digit hc, decide_eq_false hn]

theorem isSolid_repr (n : ℤ) : IsSolid n.repr.toList := by
  have hdigits : IsSolid (Nat.toDigits 10 n.natAbs) :=
    isSolid_digits fun c hc => isDigit_toDigits hc
  rw [toList_repr]
  split
  · exact isSolid_cons (by decide) hdigits
  · exact hdigits

/-- An integer within the bounds is read from its text. -/
theorem readInteger_repr {lo hi n : ℤ} (hlo : lo ≤ n) (hhi : n ≤ hi) :
    readInteger lo hi n.repr.toList = .ok n := by
  have hdigits : (Nat.toDigits 10 n.natAbs).all Char.isDigit = true :=
    List.all_eq_true.2 fun c hc => isDigit_toDigits hc
  have hvalue : (if decide (n < 0) = true then -(n.natAbs : ℤ) else n.natAbs) = n := by
    by_cases hn : n < 0
    · rw [if_pos (decide_eq_true hn)]
      omega
    · rw [if_neg (by simpa using hn)]
      omega
  simp only [readInteger, trim_of_isSolid (isSolid_repr n), readSign_repr, Numeral.digitsValue_eq,
    Numeral.rowValue_toDigits, hvalue, if_pos (And.intro hlo hhi)]
  exact if_pos ⟨Nat.toDigits_ne_nil, hdigits⟩

/-! ### Real numbers -/

theorem isSolid_exponentText (width : ℕ) (e : Option ℤ) :
    IsSolid (Decimal.exponentText width e) := by
  cases e with
  | none => exact isSolid_nil
  | some e =>
      refine isSolid_cons (by decide) (isSolid_cons ?_ ?_)
      · split <;> decide
      · exact isSolid_digits fun c hc => Decimal.isDigit_paddedText hc

/-- The text of a decimal has no blanks. -/
theorem isSolid_general (t : NumberText) {d : Decimal} (hne : d.digits ≠ [])
    (hdigits : ∀ x ∈ d.digits, x < 10) : IsSolid (d.general t).toList := by
  have hlayout : ∀ x ∈ (d.layout t).whole ++ (d.layout t).fraction, x < 10 :=
    fun x hx => Decimal.lt_ten_of_mem_layout t hdigits hx
  have hrow : ∀ ds : List ℕ, (∀ x ∈ ds, x ∈ (d.layout t).whole ++ (d.layout t).fraction) →
      IsSolid (ds.map Nat.digitChar) := fun ds hds =>
    isSolid_digits fun c hc => Decimal.isDigit_of_mem_map (fun x hx => hlayout x (hds x hx)) hc
  have hfraction := hrow (d.layout t).fraction fun x hx => List.mem_append_right _ hx
  rw [Decimal.toList_general t hne, Decimal.Layout.chars]
  refine isSolid_append ?_ (isSolid_append (isSolid_append ?_ ?_) (isSolid_exponentText _ _))
  · rw [Decimal.signText]
    split
    · exact isSolid_cons (by decide) isSolid_nil
    · exact isSolid_nil
  · exact hrow _ fun x hx => List.mem_append_left _ hx
  · generalize (d.layout t).fraction.map Nat.digitChar = cs at hfraction
    cases cs with
    | nil => exact isSolid_nil
    | cons c cs => exact isSolid_cons (by decide) hfraction

/-- A text is accepted as a number, and denotes exactly a decimal of at least one digit, with its
sign. -/
def Decimal.IsDenotedBy (d : Decimal) (text : String) : Prop :=
  d.digits ≠ [] ∧ (∀ x ∈ d.digits, x < 10) ∧
    ∃ body n, readSign (Text.trim text.toList) = (d.negative, body) ∧
      Numeral.read? body = some n ∧ n.value = d.magnitude

/-- The text of a decimal denotes it. -/
theorem isDenotedBy_general (t : NumberText) {d : Decimal} (hne : d.digits ≠ [])
    (hdigits : ∀ x ∈ d.digits, x < 10) (hexponent : d.exponent.natAbs < Numeral.exponentLimit) :
    d.IsDenotedBy (d.general t) := by
  obtain ⟨c, cs, n, htext, hc, hread, hvalue⟩ :=
    Decimal.exists_read?_general t hne hdigits hexponent
  refine ⟨hne, hdigits, c :: cs, n, ?_, hread, hvalue⟩
  rw [trim_of_isSolid (isSolid_general t hne hdigits), htext, readSign_signText d hc]

section

open Binary (Format Datum)

variable {f : Format} {t : NumberText}

/-- The text of a number of a format is read as the number. -/
theorem readReal_write (hf : f.Modest) (hnan : t.nan = "NaN") (hinfinity : t.infinity = "Infinity")
    {x : Datum} (hx : ∀ negative units, x = .finite negative units → f.Holds units) :
    readReal f (t.write f x).toList = .ok x := by
  cases x with
  | finite negative units =>
      have hheld := hx negative units rfl
      obtain ⟨-, hne, hdigits, -⟩ := Decimal.readable_ofUnits hf hheld negative
      have hsolid : IsSolid (t.write f (.finite negative units)).toList :=
        isSolid_general t hne hdigits
      rw [readReal, trim_of_isSolid hsolid, read_write_finite hf hheld]
  | infinite negative =>
      rw [NumberText.write, hinfinity]
      cases negative <;> rfl
  | nan =>
      rw [NumberText.write, hnan]
      rfl

/-- The text of a number of a format denotes the number's shortest decimal. -/
theorem isDenotedBy_write (hf : f.Modest) (t : NumberText) {negative : Bool} {units : ℕ}
    (hheld : f.Holds units) :
    ∃ digits exponent, Decimal.ofUnits f negative units = ⟨negative, digits, exponent⟩ ∧
      Decimal.IsDenotedBy ⟨negative, digits, exponent⟩ (t.write f (.finite negative units)) := by
  obtain ⟨hsign, hne, hdigits, hexponent⟩ := Decimal.readable_ofUnits hf hheld negative
  have hdenoted := isDenotedBy_general t hne hdigits hexponent
  rw [NumberText.write]
  rcases hd : Decimal.ofUnits f negative units with ⟨sign, digits, exponent⟩
  rw [hd] at hsign hdenoted
  obtain rfl : sign = negative := hsign
  exact ⟨digits, exponent, rfl, hdenoted⟩

end

theorem holds_ofFloat {x : Float} {negative : Bool} {units : ℕ}
    (h : Binary.ofFloat x = .finite negative units) : Binary.double.Holds units :=
  Binary.Format.holds_decode (by decide) h

theorem holds_ofFloat32 {x : Float32} {negative : Bool} {units : ℕ}
    (h : Binary.ofFloat32 x = .finite negative units) : Binary.single.Holds units :=
  Binary.Format.holds_decode (by decide) h

theorem readReal_floatText (x : Float) :
    readReal Binary.double (floatText x).toList = .ok (Binary.ofFloat x) :=
  readReal_write Binary.double_modest rfl rfl fun _ _ h => holds_ofFloat h

theorem readReal_float32Text (x : Float32) :
    readReal Binary.single (float32Text x).toList = .ok (Binary.ofFloat32 x) :=
  readReal_write Binary.single_modest rfl rfl fun _ _ h => holds_ofFloat32 h

/-! ### Values -/

/-- A value of a basic type is read back from its text. -/
theorem readValue_of_basicType? {v : Value} {t : BasicType} (h : Value.basicType? v = some t) :
    readValue v.text t = .ok v := by
  cases v with
  | void | null | exception _ _ => cases h
  | string s =>
      cases h
      rfl
  | bool b =>
      cases h
      cases b <;> rfl
  | char c =>
      cases h
      rw [readValue, Value.text, Char.toString_eq_singleton, String.toList_singleton]
      rfl
  | byte n =>
      cases h
      have hrepr : n.toNat.repr = (n.toNat : ℤ).repr := rfl
      have hhigh : (n.toNat : ℤ) ≤ 255 := by
        have hlt := n.toNat_lt
        omega
      rw [readValue, Value.text, hrepr, readInteger_repr (Int.natCast_nonneg _) hhigh, Except.map,
        Int.toNat_natCast, UInt8.ofNat_toNat]
  | short n =>
      cases h
      have hlow : (-32768 : ℤ) ≤ n.toInt := n.le_toInt
      have hhigh : n.toInt ≤ 32767 := Int.le_of_lt_add_one n.toInt_lt
      rw [readValue, Value.text, readInteger_repr hlow hhigh, Except.map, Int16.ofInt_toInt]
  | int n =>
      cases h
      have hlow : (-2147483648 : ℤ) ≤ n.toInt := n.le_toInt
      have hhigh : n.toInt ≤ 2147483647 := Int.le_of_lt_add_one n.toInt_lt
      rw [readValue, Value.text, readInteger_repr hlow hhigh, Except.map, Int32.ofInt_toInt]
  | long n =>
      cases h
      have hlow : (-9223372036854775808 : ℤ) ≤ n.toInt := n.le_toInt
      have hhigh : n.toInt ≤ 9223372036854775807 := Int.le_of_lt_add_one n.toInt_lt
      rw [readValue, Value.text, readInteger_repr hlow hhigh, Except.map, Int64.ofInt_toInt]
  | float x =>
      cases h
      rw [readValue, Value.text, readReal_float32Text, Except.map, Binary.toFloat32_ofFloat32]
  | double x =>
      cases h
      rw [readValue, Value.text, readReal_floatText, Except.map, Binary.toFloat_ofFloat]

/-- Every value of a basic type is read back from its text, and the text of a finite number denotes
exactly the number's shortest decimal, with its sign. -/
theorem readValue_text :
    (∀ v t, Value.basicType? v = some t → readValue v.text t = .ok v) ∧
      (∀ x negative units, Binary.ofFloat x = .finite negative units →
        ∃ digits exponent, Decimal.ofUnits Binary.double negative units =
            ⟨negative, digits, exponent⟩ ∧
          Decimal.IsDenotedBy ⟨negative, digits, exponent⟩ (floatText x)) ∧
      ∀ x negative units, Binary.ofFloat32 x = .finite negative units →
        ∃ digits exponent, Decimal.ofUnits Binary.single negative units =
            ⟨negative, digits, exponent⟩ ∧
          Decimal.IsDenotedBy ⟨negative, digits, exponent⟩ (float32Text x) := by
  refine ⟨?_, ?_, ?_⟩
  · intro v t h
    exact readValue_of_basicType? h
  · intro x negative units h
    rw [floatText, h]
    exact isDenotedBy_write Binary.double_modest _ (holds_ofFloat h)
  · intro x negative units h
    rw [float32Text, h]
    exact isDenotedBy_write Binary.single_modest _ (holds_ofFloat32 h)

/-- The negative zero of either format keeps its sign. -/
theorem readValue_text_negativeZero :
    readValue (Value.text (.double (Float.ofBits 0x8000000000000000))) .double =
        .ok (.double (Float.ofBits 0x8000000000000000)) ∧
      (∃ digits exponent, Decimal.ofUnits Binary.double true 0 = ⟨true, digits, exponent⟩ ∧
        Decimal.IsDenotedBy ⟨true, digits, exponent⟩
          (floatText (Float.ofBits 0x8000000000000000))) ∧
      ∃ digits exponent, Decimal.ofUnits Binary.single true 0 = ⟨true, digits, exponent⟩ ∧
        Decimal.IsDenotedBy ⟨true, digits, exponent⟩
          (float32Text (Float32.ofBits 0x80000000)) := by
  obtain ⟨hvalue, hdouble, hsingle⟩ := readValue_text
  refine ⟨?_, ?_, ?_⟩
  · exact hvalue (.double (Float.ofBits 0x8000000000000000)) .double rfl
  · exact hdouble (Float.ofBits 0x8000000000000000) true 0 rfl
  · exact hsingle (Float32.ofBits 0x80000000) true 0 rfl

end Scriptlet
