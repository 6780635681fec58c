import Scriptlet.Proofs.Binary.Decoding
import Scriptlet.Proofs.Decimal.Narrowing
import Scriptlet.Proofs.Value.Scientific

namespace Scriptlet

/-!
# Texts of real numbers

A text is read as a real number exactly if, without the blanks at its ends, it is an optional sign
and a number in scientific notation, or the word for infinity or for what is no number. The reader
checks the syntax and leaves the reading to the standard reader of real numbers. Whatever it hands
on is in the syntax of that one.
-/

open Text (Stripped trim)

/-- What the text of a real number stands for. -/
inductive RealMeaning where
  | number (negative : Bool) (n : Scientific)
  | infinity (negative : Bool)
  | nan

namespace RealMeaning

def IsLegible : RealMeaning → Prop
  | number _ n => n.IsLegible
  | infinity _ | nan => True

/-- The number of a format that stands for the meaning of a text. -/
inductive Rounds (f : Binary.Format) : RealMeaning → Binary.Datum → Prop
  | number {negative : Bool} {n : Scientific} {d : Binary.Datum}
      (h : f.Rounds negative n.value d) : Rounds f (number negative n) d
  | infinity (negative : Bool) : Rounds f (infinity negative) (.infinite negative)
  | nan : Rounds f nan .nan

end RealMeaning

/-- A word in any letter case. -/
def IsWord (word s : List Char) : Prop :=
  s.map Char.toLower = word

/-- The text of a real number, without blanks. -/
inductive WritesReal : List Char → RealMeaning → Prop
  | number {sign body : List Char} {negative : Bool} {n : Scientific}
      (hsign : SignText sign negative) (hbody : WritesNumber body n) :
      WritesReal (sign ++ body) (.number negative n)
  | infinity {sign word : List Char} {negative : Bool} (hsign : SignText sign negative)
      (hword : IsWord "infinity".toList word) : WritesReal (sign ++ word) (.infinity negative)
  | nan {sign word : List Char} {negative : Bool} (hsign : SignText sign negative)
      (hword : IsWord "nan".toList word) : WritesReal (sign ++ word) .nan

/-- A text denotes a real number, with or without blanks at its ends. -/
def DenotesReal (s : List Char) (x : RealMeaning) : Prop :=
  ∃ body, Stripped s body ∧ WritesReal body x

/-! ### Words -/

section

variable {s body word : List Char} {n : Scientific}

theorem sameLetters_iff (hlower : word.map Char.toLower = word) :
    sameLetters s word = true ↔ IsWord word s := by
  rw [sameLetters, hlower, beq_iff_eq, IsWord]

/-- A word that begins with a letter begins with no sign. -/
theorem IsWord.head {a : Char} {as : List Char} (h : IsWord (a :: as) s) (hplus : '+' ≠ a)
    (hminus : '-' ≠ a) : ∀ c ∈ s.head?, c ≠ '+' ∧ c ≠ '-' := by
  intro c hc
  obtain ⟨t, rfl⟩ := List.head?_eq_some_iff.1 hc
  rw [IsWord, List.map_cons] at h
  obtain ⟨hlower, -⟩ := List.cons.inj h
  constructor
  · rintro rfl
    exact hplus hlower
  · rintro rfl
    exact hminus hlower

/-- A number begins with a digit or a point. -/
theorem WritesNumber.exists_head (h : WritesNumber body n) :
    ∃ c t, body = c :: t ∧ (c.isDigit = true ∨ c = '.') := by
  cases h with
  | text hmantissa _ =>
      cases hmantissa with
      | whole hdigits =>
          obtain ⟨c, t, rfl⟩ := List.exists_cons_of_ne_nil hdigits.ne_nil
          exact ⟨c, _, rfl, .inl (hdigits.digit c List.mem_cons_self)⟩
      | @pointed whole fraction hdigits =>
          cases whole with
          | nil => exact ⟨'.', _, rfl, .inr rfl⟩
          | cons c whole => exact ⟨c, _, rfl, .inl (hdigits.digit c List.mem_cons_self)⟩

theorem WritesNumber.head (h : WritesNumber body n) : ∀ c ∈ body.head?, c ≠ '+' ∧ c ≠ '-' := by
  obtain ⟨c, t, rfl, hc⟩ := h.exists_head
  intro a ha
  obtain rfl := Option.some.inj ha
  obtain hdigit | rfl := hc
  · exact ⟨ne_of_isDigit hdigit (by decide), ne_of_isDigit hdigit (by decide)⟩
  · decide

/-- A number is no word. -/
theorem WritesNumber.sameLetters_eq_false (h : WritesNumber body n) {a : Char}
    (ha : a.toLower.isDigit = false) (hpoint : '.'.toLower ≠ a.toLower) (as : List Char) :
    sameLetters body (a :: as) = false := by
  obtain ⟨c, t, rfl, hc⟩ := h.exists_head
  exact sameLetters_numeral hc ha hpoint t as

end

/-! ### The grammar -/

section

variable {f : Binary.Format} {s : List Char} {x : RealMeaning} {d : Binary.Datum}

theorem readNumber_append {sign body : List Char} {negative : Bool} {n : Scientific}
    (hsign : SignText sign negative) (hbody : WritesNumber body n) :
    readNumber f (sign ++ body) = (Numeral.read? body).map (·.toDatum f negative) := by
  have hinfinity : sameLetters body "infinity".toList = false :=
    hbody.sameLetters_eq_false (a := 'i') (by decide) (by decide) _
  have hnan : sameLetters body "nan".toList = false :=
    hbody.sameLetters_eq_false (a := 'n') (by decide) (by decide) _
  simp only [readNumber, readSign_append hsign hbody.head, hinfinity, hnan, Bool.false_eq_true,
    if_false]

/-- A text in the syntax is read, and legible numbers are rounded to the nearest one. -/
theorem exists_readNumber (hf : f.Modest) (hp : 1 < f.precision) (h : WritesReal s x) :
    ∃ d, readNumber f s = some d ∧ (x.IsLegible → x.Rounds f d) := by
  cases h with
  | @number sign body negative n hsign hbody =>
      obtain ⟨k, hread, hk⟩ := Numeral.exists_read? hbody
      refine ⟨(Numeral.ofDigits n.digits (k - n.places)).toDatum f negative, ?_, fun hlegible => ?_⟩
      · rw [readNumber_append hsign hbody, hread, Option.map_some]
      · obtain ⟨hdigits, hplaces⟩ := hbody.isDigits
        exact .number (Scientific.rounds hf hp hdigits.digit hplaces hlegible hk)
  | @infinity sign word negative hsign hword =>
      have hsame : sameLetters word "infinity".toList = true := (sameLetters_iff rfl).2 hword
      refine ⟨.infinite negative, ?_, fun _ => .infinity negative⟩
      simp only [readNumber, readSign_append hsign (hword.head (by decide) (by decide)), hsame,
        if_true]
  | @nan sign word negative hsign hword =>
      have hinfinity : sameLetters word "infinity".toList = false := by
        rw [sameLetters, hword]
        decide
      have hsame : sameLetters word "nan".toList = true := (sameLetters_iff rfl).2 hword
      refine ⟨.nan, ?_, fun _ => .nan⟩
      simp only [readNumber, readSign_append hsign (hword.head (by decide) (by decide)), hinfinity,
        hsame, Bool.false_eq_true, if_false, if_true]

/-- Nothing else is read. -/
theorem exists_writesReal (h : readNumber f s = some d) : ∃ x, WritesReal s x := by
  obtain ⟨sign, hsign, htext⟩ := exists_signText s
  rw [readNumber] at h
  generalize readSign s = parts at h hsign htext
  obtain ⟨negative, body⟩ := parts
  dsimp only at h hsign htext
  rw [htext]
  split at h
  · next hword => exact ⟨_, .infinity hsign ((sameLetters_iff rfl).1 hword)⟩
  · split at h
    · next hword => exact ⟨_, .nan hsign ((sameLetters_iff rfl).1 hword)⟩
    · obtain ⟨n, hread, -⟩ := Option.map_eq_some_iff.1 h
      obtain ⟨m, hbody⟩ := Numeral.exists_writesNumber hread
      exact ⟨_, .number hsign hbody⟩

theorem holdsDatum_readNumber (hp : 1 < f.precision) (h : readNumber f s = some d) :
    f.HoldsDatum d ∨ d = .nan := by
  rw [readNumber] at h
  generalize readSign s = parts at h
  obtain ⟨negative, body⟩ := parts
  dsimp only at h
  split at h
  · cases h
    exact .inl trivial
  · split at h
    · cases h
      exact .inr rfl
    · obtain ⟨n, -, rfl⟩ := Option.map_eq_some_iff.1 h
      exact .inl (Numeral.holdsDatum_toDatum hp n negative)

end

/-! ### The standard reader -/

/-- The text that is left to the standard reader, if the syntax is right. -/
def standardText? (s : List Char) : Option (List Char) :=
  let (negative, body) := readSign (trim s)
  let sign := if negative then ['-'] else []
  if sameLetters body "infinity".toList then some (sign ++ "inf".toList)
  else if sameLetters body "nan".toList then some "NaN".toList
  else if (Numeral.read? body).isSome then some (sign ++ body)
  else none

/-- The syntax of the standard reader. -/
inductive StandardText : List Char → Prop
  | inf {sign word : List Char} {negative : Bool} (hsign : SignText sign negative)
      (hword : IsWord "inf".toList word) : StandardText (sign ++ word)
  | real {s : List Char} {x : RealMeaning} (h : WritesReal s x) : StandardText s

/-- The standard reader. It knows one more word for infinity. -/
def readStandard (f : Binary.Format) (s : List Char) : Option Binary.Datum :=
  let (negative, body) := readSign s
  if sameLetters body "inf".toList then some (.infinite negative) else readNumber f s

section

variable {f : Binary.Format} {s t : List Char}

theorem signText_minus (negative : Bool) :
    SignText (if negative then ['-'] else []) negative := by
  cases negative
  · exact .absent
  · exact .minus

/-- The standard reader accepts exactly the texts in its syntax. -/
theorem isSome_readStandard_iff (hf : f.Modest) (hp : 1 < f.precision) :
    (readStandard f s).isSome = true ↔ StandardText s := by
  constructor
  · intro h
    obtain ⟨d, hd⟩ := Option.isSome_iff_exists.1 h
    obtain ⟨sign, hsign, htext⟩ := exists_signText s
    rw [readStandard] at hd
    dsimp only at hd
    split at hd
    · next hword =>
        rw [htext]
        exact .inf hsign ((sameLetters_iff rfl).1 hword)
    · obtain ⟨x, hx⟩ := exists_writesReal hd
      exact .real hx
  · intro h
    rw [readStandard]
    dsimp only
    split
    · rfl
    · next hother =>
        cases h with
        | inf hsign hword =>
            rw [readSign_append hsign (hword.head (by decide) (by decide))] at hother
            exact absurd ((sameLetters_iff rfl).2 hword) hother
        | real hx =>
            obtain ⟨d, hd, -⟩ := exists_readNumber hf hp hx
            rw [hd]
            rfl

/-- The text that is left to the standard reader is in its syntax, and is read as the original. -/
theorem readStandard_standardText? (h : standardText? s = some t) :
    StandardText t ∧ readStandard f t = readNumber f (trim s) := by
  rw [standardText?] at h
  rw [readNumber]
  generalize readSign (trim s) = parts at h ⊢
  obtain ⟨negative, body⟩ := parts
  have hsign := signText_minus negative
  dsimp only at h ⊢
  split at h
  · next hword =>
      cases h
      have hinf : IsWord "inf".toList "inf".toList := rfl
      refine ⟨.inf hsign hinf, ?_⟩
      rw [readStandard, readSign_append hsign (hinf.head (by decide) (by decide)), if_pos hword]
      rfl
  · next hinfinity =>
      split at h
      · next hword =>
          cases h
          have hword' : IsWord "nan".toList "NaN".toList := rfl
          refine ⟨.real (.nan .absent hword'), ?_⟩
          rw [if_neg hinfinity, if_pos hword]
          rfl
      · next hnan =>
          split at h
          · next hread =>
              cases h
              obtain ⟨n, hn⟩ := Option.isSome_iff_exists.1 hread
              obtain ⟨m, hbody⟩ := Numeral.exists_writesNumber hn
              have hinf : sameLetters body "inf".toList = false :=
                hbody.sameLetters_eq_false (a := 'i') (by decide) (by decide) _
              refine ⟨.real (.number hsign hbody), ?_⟩
              rw [readStandard, readNumber, readSign_append hsign hbody.head]
              simp only [hinf, Bool.false_eq_true, if_false]
          · cases h

theorem readNumber_of_standardText?_eq_none (h : standardText? s = none) :
    readNumber f (trim s) = none := by
  rw [standardText?] at h
  rw [readNumber]
  generalize readSign (trim s) = parts at h ⊢
  obtain ⟨negative, body⟩ := parts
  dsimp only at h ⊢
  split at h
  · cases h
  · next hinfinity =>
      split at h
      · cases h
      · next hnan =>
          split at h
          · cases h
          · next hread =>
              rw [if_neg hinfinity, if_neg hnan, Option.map_eq_none_iff]
              exact Option.not_isSome_iff_eq_none.1 hread

/-- Reading in two stages: first the syntax is checked, then the standard reader reads. -/
def readStaged (f : Binary.Format) (s : List Char) : Except ReadError Binary.Datum :=
  match standardText? s with
  | none => .error .format
  | some t =>
      match readStandard f t with
      | none => .error .format
      | some d => .ok d

theorem readReal_eq_readStaged : readReal f s = readStaged f s := by
  rw [readReal, readStaged]
  cases h : standardText? s with
  | none =>
      rw [readNumber_of_standardText?_eq_none h]
  | some t =>
      dsimp only
      rw [(readStandard_standardText? h).2]
      cases readNumber f (trim s) <;> rfl

end

/-! ### Values -/

/-- The types of real numbers. -/
inductive RealType where
  | float
  | double

namespace RealType

def basicType : RealType → BasicType
  | float => .float
  | double => .double

def format : RealType → Binary.Format
  | float => Binary.single
  | double => Binary.double

def value : RealType → Binary.Datum → Value
  | float, d => .float (Binary.toFloat32 d)
  | double, d => .double (Binary.toFloat d)

/-- The number that a value of the type is. -/
inductive Holds : RealType → Value → Binary.Datum → Prop
  | float (x : Float32) : Holds .float (.float x) (Binary.ofFloat32 x)
  | double (x : Float) : Holds .double (.double x) (Binary.ofFloat x)

variable {t : RealType} {s : String} {x : RealMeaning} {d : Binary.Datum} {v : Value}

theorem modest (t : RealType) : t.format.Modest := by
  cases t
  · exact Binary.single_modest
  · exact Binary.double_modest

theorem one_lt_precision (t : RealType) : 1 < t.format.precision := by
  cases t <;> decide

theorem readValue_eq (t : RealType) (s : String) :
    readValue s t.basicType = (readReal t.format s.toList).map t.value := by
  cases t <;> rfl

theorem holds_value (h : t.format.HoldsDatum d ∨ d = .nan) : t.Holds (t.value d) d := by
  cases t with
  | float =>
      have hd : Binary.ofFloat32 (Binary.toFloat32 d) = d := by
        obtain hd | rfl := h
        · exact Binary.ofFloat32_toFloat32 hd
        · exact Binary.ofFloat32_toFloat32_nan
      have hholds := Holds.float (Binary.toFloat32 d)
      rwa [hd] at hholds
  | double =>
      have hd : Binary.ofFloat (Binary.toFloat d) = d := by
        obtain hd | rfl := h
        · exact Binary.ofFloat_toFloat hd
        · exact Binary.ofFloat_toFloat_nan
      have hholds := Holds.double (Binary.toFloat d)
      rwa [hd] at hholds

/-- A text that denotes a real number is read as a value, and as the nearest one if it is
legible. -/
theorem exists_readValue (h : DenotesReal s.toList x) :
    ∃ v d, readValue s t.basicType = .ok v ∧ t.Holds v d ∧ (x.IsLegible → x.Rounds t.format d) := by
  obtain ⟨body, hbody, hx⟩ := h
  obtain ⟨d, hd, hrounds⟩ := exists_readNumber t.modest t.one_lt_precision hx
  refine ⟨t.value d, d, ?_, holds_value (holdsDatum_readNumber t.one_lt_precision hd), hrounds⟩
  rw [readValue_eq, readReal, hbody.trim_eq, hd]
  rfl

/-- Every other text is malformed. -/
theorem readValue_of_not_denotes (h : ¬∃ x, DenotesReal s.toList x) :
    readValue s t.basicType = .error .format := by
  rw [readValue_eq, readReal]
  cases hread : readNumber t.format (trim s.toList) with
  | none => rfl
  | some d =>
      obtain ⟨x, hx⟩ := exists_writesReal hread
      exact absurd ⟨x, _, Text.stripped_trim _, hx⟩ h

theorem readValue_eq_ok_iff :
    (∃ v, readValue s t.basicType = .ok v) ↔ ∃ x, DenotesReal s.toList x := by
  constructor
  · rintro ⟨v, hv⟩
    by_contra hx
    rw [readValue_of_not_denotes hx] at hv
    cases hv
  · rintro ⟨x, hx⟩
    obtain ⟨v, d, hv, -⟩ := exists_readValue (t := t) hx
    exact ⟨v, hv⟩

theorem readValue_eq_format_iff :
    readValue s t.basicType = .error .format ↔ ¬∃ x, DenotesReal s.toList x := by
  constructor
  · rintro h ⟨x, hx⟩
    obtain ⟨v, d, hv, -⟩ := exists_readValue (t := t) hx
    rw [h] at hv
    cases hv
  · exact readValue_of_not_denotes

theorem readValue_ne_overflow (t : RealType) (s : String) :
    readValue s t.basicType ≠ .error .overflow := by
  by_cases hx : ∃ x, DenotesReal s.toList x
  · obtain ⟨v, hv⟩ := readValue_eq_ok_iff.2 hx
    rw [hv]
    nofun
  · rw [readValue_of_not_denotes hx]
    nofun

end RealType

/-- The texts of real numbers, for each type of real numbers: which are read, and that every other
one is malformed. What is left to the standard reader is always in its syntax and accepted. A
legible text is read as the value nearest to what it denotes. -/
theorem readValue_real (t : RealType) (s : String) :
    ((∃ v, readValue s t.basicType = .ok v) ↔ ∃ x, DenotesReal s.toList x) ∧
    (readValue s t.basicType = .error .format ↔ ¬∃ x, DenotesReal s.toList x) ∧
    readValue s t.basicType ≠ .error .overflow ∧
    readValue s t.basicType = (readStaged t.format s.toList).map t.value ∧
    (∀ text, standardText? s.toList = some text →
      StandardText text ∧ (readStandard t.format text).isSome = true) ∧
    ∀ v x, readValue s t.basicType = .ok v → DenotesReal s.toList x → x.IsLegible →
      ∃ d, t.Holds v d ∧ x.Rounds t.format d := by
  refine ⟨RealType.readValue_eq_ok_iff, RealType.readValue_eq_format_iff,
    t.readValue_ne_overflow s, ?staged, fun text htext => ?accepted, fun v x hv hx hlegible => ?_⟩
  case staged => rw [RealType.readValue_eq, readReal_eq_readStaged]
  case accepted =>
    obtain ⟨hgrammar, -⟩ := readStandard_standardText? (f := t.format) htext
    exact ⟨hgrammar, (isSome_readStandard_iff t.modest t.one_lt_precision).2 hgrammar⟩
  obtain ⟨w, d, hw, hholds, hrounds⟩ := RealType.exists_readValue (t := t) hx
  rw [hv] at hw
  cases hw
  exact ⟨d, hholds, hrounds hlegible⟩

/-! ### A number that is not legible -/

/-- A one behind many zeros, with an exponent that is more than enough for them. -/
def zerosText (zeros : ℕ) : String :=
  "0." ++ String.ofList (List.replicate zeros '0') ++ "1e655360"

/-- The digits of such a text. -/
def zerosDigits (zeros : ℕ) : List Char :=
  '0' :: (List.replicate zeros '0' ++ ['1'])

section

variable (zeros : ℕ)

theorem toList_zerosText : (zerosText zeros).toList =
    (['0'] ++ '.' :: (List.replicate zeros '0' ++ ['1'])) ++ "e655360".toList := by
  have hfront : "0.".toList = ['0', '.'] := rfl
  have hback : "1e655360".toList = '1' :: "e655360".toList := rfl
  have hzeros := @String.toList_ofList (List.replicate zeros '0')
  rw [zerosText, String.toList_append, String.toList_append, hzeros, hfront, hback]
  simp only [List.append_assoc, List.cons_append, List.nil_append]

theorem zerosDigits_eq : zerosDigits zeros = List.replicate (zeros + 1) '0' ++ ['1'] :=
  rfl

theorem isDigits_zerosDigits : IsDigits (zerosDigits zeros) := by
  refine ⟨List.cons_ne_nil _ _, fun c hc => ?_⟩
  rw [zerosDigits_eq, List.mem_append, List.mem_singleton] at hc
  obtain hc | rfl := hc
  · rw [List.eq_of_mem_replicate hc]
    rfl
  · rfl

theorem writesMantissa_zeros :
    WritesMantissa (['0'] ++ '.' :: (List.replicate zeros '0' ++ ['1'])) (zerosDigits zeros)
      (zeros + 1) := by
  have hplaces : (List.replicate zeros '0' ++ ['1']).length = zeros + 1 := by
    rw [List.length_append, List.length_replicate, List.length_singleton]
  have hmantissa := @WritesMantissa.pointed ['0'] (List.replicate zeros '0' ++ ['1'])
    (isDigits_zerosDigits zeros)
  rwa [hplaces] at hmantissa

theorem writesNumber_zerosText :
    WritesNumber (zerosText zeros).toList ⟨zerosDigits zeros, zeros + 1, 655360⟩ := by
  have hdigits : IsDigits "655360".toList := isDigits_iff.2 ⟨List.cons_ne_nil _ _, rfl⟩
  rw [toList_zerosText]
  exact .text (writesMantissa_zeros zeros) (.present (.inl rfl) .absent hdigits)

/-- The last digit of the exponent is not read. -/
theorem read?_zerosText : Numeral.read? (zerosText zeros).toList =
    some (Numeral.ofDigits (zerosDigits zeros) (65536 - (zeros + 1 : ℕ))) := by
  have hexponent : Numeral.readExponent "e655360".toList = some 65536 := by decide
  rw [toList_zerosText]
  exact Numeral.read?_append (writesMantissa_zeros zeros) hexponent

theorem ofDigits_zerosDigits (e : ℤ) : Numeral.ofDigits (zerosDigits zeros) e = ⟨1, 1, e⟩ := by
  have hzeros : ∀ c ∈ List.replicate (zeros + 1) '0', (c == '0') = true := by
    intro c hc
    rw [List.eq_of_mem_replicate hc]
    rfl
  rw [Numeral.ofDigits, zerosDigits_eq, List.dropWhile_append_of_pos hzeros]
  rfl

theorem stripped_zerosText : Stripped (zerosText zeros).toList (zerosText zeros).toList := by
  apply Text.stripped_self
  · intro c hc
    rw [toList_zerosText] at hc
    obtain rfl : '0' = c := Option.some.inj hc
    rfl
  · intro c hc
    have hback : "e655360".toList = "e65536".toList ++ ['0'] := rfl
    rw [toList_zerosText, hback, ← List.append_assoc, List.getLast?_concat] at hc
    obtain rfl : '0' = c := Option.some.inj hc
    rfl

theorem readValue_zerosText : readValue (zerosText zeros) RealType.double.basicType =
    .ok (RealType.double.value ((⟨1, 1, 65536 - (zeros + 1 : ℕ)⟩ : Numeral).toDatum
      Binary.double false)) := by
  have hread := readNumber_append (f := Binary.double) .absent (writesNumber_zerosText zeros)
  rw [List.nil_append, read?_zerosText, ofDigits_zerosDigits, Option.map_some] at hread
  rw [RealType.readValue_eq, readReal, (stripped_zerosText zeros).trim_eq]
  rw [RealType.format, hread]
  rfl

end

/-- A number beyond every format that is read as a finite one. -/
theorem readValue_beyond_limit :
    ∃ n v d, DenotesReal (zerosText 65300).toList (.number false n) ∧
      readValue (zerosText 65300) RealType.double.basicType = .ok v ∧
      RealType.double.Holds v d ∧ ¬(RealMeaning.number false n).Rounds Binary.double d := by
  obtain ⟨zeros, hzeros⟩ : ∃ zeros, zeros = 65300 := ⟨_, rfl⟩
  have hp : 1 < Binary.double.precision := by decide
  obtain ⟨n, hn⟩ : ∃ n : Numeral, n = ⟨1, 1, 65536 - (zeros + 1 : ℕ)⟩ := ⟨_, rfl⟩
  obtain ⟨units, hfinite⟩ : ∃ units, n.toDatum Binary.double false = .finite false units := by
    refine ⟨Binary.double.roundUnits (1 * Decimal.tenTo 235 * Binary.double.one) 1, ?_⟩
    rw [hn, hzeros]
    decide +kernel
  have hheld := Numeral.holdsDatum_toDatum hp n false
  have hvalue := readValue_zerosText zeros
  rw [hfinite] at hheld
  rw [← hn, hfinite] at hvalue
  have hholds : RealType.double.Holds _ (.finite false units) := RealType.holds_value (.inl hheld)
  rw [← hzeros]
  refine ⟨_, _, _, ⟨_, stripped_zerosText zeros, .number .absent (writesNumber_zerosText zeros)⟩,
    hvalue, hholds, ?_⟩
  rintro ⟨h⟩
  refine Binary.Format.not_rounds_finite hp ?_ h
  have hmeasured := Numeral.measured_ofDigits (isDigits_zerosDigits zeros).digit
    (655360 - (zeros + 1 : ℕ))
  have hbeyond : (Scientific.mk (zerosDigits zeros) (zeros + 1) 655360).value =
      (Numeral.ofDigits (zerosDigits zeros) (655360 - (zeros + 1 : ℕ))).value := by
    rw [Numeral.value_ofDigits, Scientific.value]
  rw [hbeyond]
  rw [ofDigits_zerosDigits] at hmeasured ⊢
  refine Numeral.largest_le_of_huge Binary.double_modest hmeasured Nat.one_ne_zero ?_
  simp only [Numeral.magnitudeBound]
  omega

end Scriptlet
