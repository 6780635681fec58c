import Scriptlet.Machine.Library
import Scriptlet.Proofs.Text.Bytes

namespace Scriptlet.Machine

/-!
# Text routines

The routines on texts count in characters and agree with each other: what one of them finds, another
cuts out. Searching and cutting the bytes of the text instead comes to the same.
-/

open Text (Occurrences byteOffset encode)

/-- Whether a routine ends in an exception of the class. -/
def CallRaises (r : Code.Routine) (args : List Value) (c : ExceptionClass) : Prop :=
  ∃ f, call r args = .error f ∧ f.exceptionClass = c

/-- The `length` characters of `s` behind the first `start` ones. -/
def IsPart (s : String) (start length : ℤ) (part : String) : Prop :=
  ∃ before after : String, s = before ++ part ++ after ∧ (before.length : ℤ) = start ∧
    (part.length : ℤ) = length

/-- There are `length` characters behind the first `start` ones. -/
def HasPart (s : String) (start length : ℤ) : Prop :=
  0 ≤ start ∧ 0 ≤ length ∧ start + length ≤ s.length

/-- Where a search for `t` in `s` ends. -/
inductive FoundAt (t s : String) : Int32 → Prop
  | first {k : ℕ} {n : Int32} (h : IsLeast (Occurrences t.toList s.toList) k)
      (hn : n.toInt = k) : FoundAt t s n
  | absent (h : Occurrences t.toList s.toList = ∅) : FoundAt t s (-1)

section

variable {s t part : String} {start length : ℤ}

/-! ### Parts -/

theorem length_toList (s : String) : s.toList.length = s.length :=
  rfl

theorem toInt_countInt {n : ℕ} (h : n ≤ 2147483647) : (countInt n).toInt = n := by
  rw [countInt, Nat.min_eq_left h]
  exact Int32.toInt_ofNat_of_lt (by omega)

theorem IsPart.hasPart (h : IsPart s start length part) : HasPart s start length := by
  obtain ⟨before, after, rfl, rfl, rfl⟩ := h
  simp only [HasPart, String.length_append]
  omega

theorem IsPart.toList (h : IsPart s start length part) :
    part.toList = (s.toList.drop start.toNat).take length.toNat := by
  obtain ⟨before, after, rfl, rfl, rfl⟩ := h
  have hbefore : ((before.length : ℤ)).toNat = before.toList.length := Int.toNat_natCast _
  have hpart : ((part.length : ℤ)).toNat = part.toList.length := Int.toNat_natCast _
  rw [hbefore, hpart, String.toList_append, String.toList_append, List.append_assoc,
    List.drop_left, List.take_left]

theorem HasPart.isPart (h : HasPart s start length) :
    IsPart s start length (String.ofList ((s.toList.drop start.toNat).take length.toNat)) := by
  obtain ⟨hstart, hlength, hend⟩ := h
  rw [← length_toList] at hend
  refine ⟨String.ofList (s.toList.take start.toNat),
    String.ofList ((s.toList.drop start.toNat).drop length.toNat), ?_, ?_, ?_⟩
  · rw [← String.toList_inj]
    simp only [String.toList_append, String.toList_ofList, List.append_assoc,
      List.take_append_drop]
  · rw [← length_toList, String.toList_ofList, List.length_take]
    omega
  · rw [← length_toList, String.toList_ofList, List.length_take, List.length_drop]
    omega

theorem isPart_unique {part' : String} (h : IsPart s start length part)
    (h' : IsPart s start length part') : part = part' := by
  rw [← String.toList_inj, h.toList, h'.toList]

/-- The beginning of a text. -/
theorem isPart_zero_iff : IsPart s 0 t.length t ↔ t.toList <+: s.toList := by
  constructor
  · rintro ⟨before, after, rfl, hbefore, -⟩
    have hempty : before = "" := by
      rw [← String.toList_eq_nil_iff, ← List.length_eq_zero_iff, length_toList]
      exact_mod_cast hbefore
    rw [hempty, String.toList_append, String.toList_append]
    exact List.prefix_append _ _
  · rintro ⟨rest, hrest⟩
    refine ⟨"", String.ofList rest, ?_, rfl, rfl⟩
    rw [← String.toList_inj, String.toList_append, String.toList_append, ← hrest]
    simp

/-- The end of a text. -/
theorem isPart_end_iff (h : t.length ≤ s.length) :
    IsPart s (s.length - t.length : ℕ) t.length t ↔ t.toList <:+ s.toList := by
  constructor
  · rintro ⟨before, after, rfl, hbefore, -⟩
    have hempty : after = "" := by
      rw [← String.toList_eq_nil_iff, ← List.length_eq_zero_iff, length_toList]
      simp only [String.length_append] at hbefore h
      omega
    rw [hempty, String.toList_append, String.toList_append, String.toList_empty, List.append_nil]
    exact List.suffix_append _ _
  · rintro ⟨rest, hrest⟩
    refine ⟨String.ofList rest, "", ?_, ?_, rfl⟩
    · rw [← String.toList_inj, String.toList_append, String.toList_append, ← hrest]
      simp
    · have hcount := congrArg List.length hrest
      rw [List.length_append, length_toList, length_toList] at hcount
      rw [← length_toList, String.toList_ofList]
      omega

end

/-! ### The routines -/

/-- The routines on a text, character by character. -/
structure CountsCharacters (s : String) : Prop where
  length : call .length [.string s] = .ok (.value (.int (countInt s.length))) ∧
    (countInt s.length).toInt = s.length
  substring (start length : Int32) (h : HasPart s start.toInt length.toInt) :
    ∃ part, call .substringOf [.string s, .int start, .int length] = .ok (.value (.string part)) ∧
      IsPart s start.toInt length.toInt part
  substring_fails (start length : Int32) (h : ¬HasPart s start.toInt length.toInt) :
    CallRaises .substringOf [.string s, .int start, .int length] .argumentOutOfRange
  substring_rest (start : Int32) : call .substring [.string s, .int start] =
    call .substringOf [.string s, .int start, .int (countInt s.length - start)]
  charAt (i : Int32) (h : 0 ≤ i.toInt ∧ i.toInt < s.length) :
    ∃ c, call .charAt [.string s, .int i] = .ok (.value (.char c)) ∧
      s.toList[i.toInt.toNat]? = some c
  charAt_fails (i : Int32) (h : ¬(0 ≤ i.toInt ∧ i.toInt < s.length)) :
    CallRaises .charAt [.string s, .int i] .indexOutOfRange
  indexOf (t : String) : ∃ n, call .indexOf [.string s, .string t] = .ok (.value (.int n)) ∧
    FoundAt t s n
  indexOf_empty : call .indexOf [.string s, .string ""] = .ok (.value (.int 0))
  indexOf_char (c : Char) : call .indexOf [.string s, .char c] =
    call .indexOf [.string s, .string (String.singleton c)]
  contains (t : String) (n : Int32)
    (h : call .indexOf [.string s, .string t] = .ok (.value (.int n))) :
    call .contains [.string s, .string t] = .ok (.value (.bool (decide (0 ≤ n.toInt))))
  startsWith (t : String) (h : t.length ≤ s.length) :
    ∃ b, call .startsWith [.string s, .string t] = .ok (.value (.bool b)) ∧
      (b = true ↔ call .substringOf [.string s, .int 0, .int (countInt t.length)] =
        .ok (.value (.string t)))
  endsWith (t : String) (h : t.length ≤ s.length) :
    ∃ b, call .endsWith [.string s, .string t] = .ok (.value (.bool b)) ∧
      (b = true ↔ call .substringOf
          [.string s, .int (countInt (s.length - t.length)), .int (countInt t.length)] =
        .ok (.value (.string t)))
  longer (t : String) (h : s.length < t.length) :
    call .startsWith [.string s, .string t] = .ok (.value (.bool false)) ∧
      call .endsWith [.string s, .string t] = .ok (.value (.bool false))

/-- The routines on a text, as they are carried out on its bytes. -/
structure CutsBytes (s : String) : Prop where
  substring (start length : Int32) (part : String)
    (h : call .substringOf [.string s, .int start, .int length] = .ok (.value (.string part))) :
    encode part.toList =
      ((encode s.toList).drop (byteOffset s.toList start.toInt.toNat)).take
        (byteOffset s.toList (start.toInt.toNat + length.toInt.toNat) -
          byteOffset s.toList start.toInt.toNat)
  indexOf (t : String) (n : Int32)
    (h : call .indexOf [.string s, .string t] = .ok (.value (.int n))) :
    (∃ k : ℕ, n.toInt = k ∧
        IsLeast (Occurrences (encode t.toList) (encode s.toList)) (byteOffset s.toList k)) ∨
      n = -1 ∧ Occurrences (encode t.toList) (encode s.toList) = ∅
  startsWith (t : String) (b : Bool)
    (h : call .startsWith [.string s, .string t] = .ok (.value (.bool b))) :
    b = true ↔ encode t.toList <+: encode s.toList
  endsWith (t : String) (b : Bool)
    (h : call .endsWith [.string s, .string t] = .ok (.value (.bool b))) :
    b = true ↔ encode t.toList <:+ encode s.toList

section

variable {s t : String} {start length : ℤ}

/-- Cutting a part out of a text that is not too long. -/
theorem substring_of_hasPart (hs : s.length ≤ 2147483647) (h : HasPart s start length) :
    substring s.toList start length =
      .ok (textValue ((s.toList.drop start.toNat).take length.toNat)) := by
  obtain ⟨hstart, hlength, hend⟩ := h
  simp only [substring, length_toList, toInt_countInt hs]
  rw [if_neg (by omega), if_neg (by omega), if_neg (by omega), if_neg (by omega)]

theorem exists_substring_error (hs : s.length ≤ 2147483647) (h : ¬HasPart s start length) :
    ∃ f, substring s.toList start length = .error f ∧ f.exceptionClass = .argumentOutOfRange := by
  simp only [substring, length_toList, toInt_countInt hs]
  split
  · exact ⟨_, rfl, rfl⟩
  · split
    · exact ⟨_, rfl, rfl⟩
    · split
      · exact ⟨_, rfl, rfl⟩
      · split
        · exact ⟨_, rfl, rfl⟩
        · exact absurd ⟨by omega, by omega, by omega⟩ h

theorem call_substringOf (s : String) (start length : Int32) :
    call .substringOf [.string s, .int start, .int length] =
      (substring s.toList start.toInt length.toInt).map .value :=
  rfl

theorem call_substring (s : String) (start : Int32) : call .substring [.string s, .int start] =
    (substring s.toList start.toInt
      ((countInt s.toList.length).toInt - max start.toInt 0)).map .value :=
  rfl

theorem call_charAt (s : String) (i : Int32) : call .charAt [.string s, .int i] =
    (charAt s.toList i.toInt).map .value :=
  rfl

theorem call_indexOf (s t : String) : call .indexOf [.string s, .string t] =
    .ok (.value (position t.toList s.toList)) :=
  rfl

theorem call_contains (s t : String) : call .contains [.string s, .string t] =
    .ok (.value (.bool (Text.indexOf? t.toList s.toList).isSome)) :=
  rfl

theorem call_startsWith (s t : String) : call .startsWith [.string s, .string t] =
    .ok (.value (.bool (t.toList.isPrefixOf s.toList))) :=
  rfl

theorem call_endsWith (s t : String) : call .endsWith [.string s, .string t] =
    .ok (.value (.bool (t.toList.isSuffixOf s.toList))) :=
  rfl

/-- What is cut out is the part that is asked for. -/
theorem call_substringOf_eq_ok_iff (hs : s.length ≤ 2147483647) {start length : Int32}
    {part : String} :
    call .substringOf [.string s, .int start, .int length] = .ok (.value (.string part)) ↔
      IsPart s start.toInt length.toInt part := by
  rw [call_substringOf]
  by_cases h : HasPart s start.toInt length.toInt
  · rw [substring_of_hasPart hs h]
    constructor
    · intro hpart
      cases hpart
      exact h.isPart
    · intro hpart
      rw [isPart_unique hpart h.isPart]
      rfl
  · obtain ⟨f, hf, -⟩ := exists_substring_error hs h
    rw [hf]
    constructor
    · nofun
    · exact fun hpart => absurd hpart.hasPart h

theorem callRaises_substringOf (hs : s.length ≤ 2147483647) {start length : Int32}
    (h : ¬HasPart s start.toInt length.toInt) :
    CallRaises .substringOf [.string s, .int start, .int length] .argumentOutOfRange := by
  obtain ⟨f, hf, hclass⟩ := exists_substring_error hs h
  refine ⟨f, ?_, hclass⟩
  rw [call_substringOf, hf]
  rfl

/-- Without a length the rest of the text is cut out, and what fails with a length fails alike. -/
theorem call_substring_eq (hs : s.length ≤ 2147483647) (start : Int32) :
    call .substring [.string s, .int start] =
      call .substringOf [.string s, .int start, .int (countInt s.length - start)] := by
  rw [call_substring, call_substringOf]
  congr 1
  have hcount := toInt_countInt hs
  have hwrap := Int32.toInt_sub (countInt s.length) start
  simp only [substring, length_toList, hcount] at hwrap ⊢
  -- The difference wraps around only for starts that are refused before it is looked at.
  by_cases hnegative : start.toInt < 0
  · rw [if_pos hnegative, if_pos hnegative]
  · by_cases hbeyond : (s.length : ℤ) < start.toInt
    · rw [if_neg hnegative, if_neg hnegative, if_pos hbeyond, if_pos hbeyond]
    · have hrest : (countInt s.length - start).toInt = s.length - start.toInt := by
        rw [hwrap]
        exact Int.bmod_eq_of_le (by omega) (by omega)
      rw [hrest, max_eq_left (by omega)]

theorem call_charAt_of_lt {i : Int32} (h : 0 ≤ i.toInt ∧ i.toInt < s.length) :
    ∃ c, call .charAt [.string s, .int i] = .ok (.value (.char c)) ∧
      s.toList[i.toInt.toNat]? = some c := by
  obtain ⟨hlow, hhigh⟩ := h
  rw [← length_toList] at hhigh
  have hindex : i.toInt.toNat < s.toList.length := by omega
  refine ⟨s.toList[i.toInt.toNat], ?_, List.getElem?_eq_getElem hindex⟩
  rw [call_charAt, charAt, if_neg (by omega), List.getElem?_eq_getElem hindex]
  rfl

theorem callRaises_charAt {i : Int32} (h : ¬(0 ≤ i.toInt ∧ i.toInt < s.length)) :
    CallRaises .charAt [.string s, .int i] .indexOutOfRange := by
  refine ⟨.failed .indexOutOfRange, ?_, rfl⟩
  rw [call_charAt, charAt]
  by_cases hnegative : i.toInt < 0
  · rw [if_pos hnegative]
    rfl
  · have hnone : s.toList[i.toInt.toNat]? = none := by
      rw [List.getElem?_eq_none_iff, length_toList]
      omega
    rw [if_neg hnegative, hnone]
    rfl

/-! ### Searching -/

/-- A search ends at the first occurrence or with minus one. -/
theorem exists_position (hs : s.length ≤ 2147483647) (t : String) :
    ∃ n, position t.toList s.toList = .int n ∧ FoundAt t s n := by
  rw [position]
  cases hfound : Text.indexOf? t.toList s.toList with
  | none => exact ⟨-1, rfl, .absent (Text.indexOf?_eq_none_iff.1 hfound)⟩
  | some k =>
      have hleast := Text.indexOf?_eq_some_iff.1 hfound
      have hk : k ≤ 2147483647 := (Text.le_length_of_isLeast hleast).trans hs
      exact ⟨countInt k, rfl, .first hleast (toInt_countInt hk)⟩

theorem foundAt_of_call (hs : s.length ≤ 2147483647) {n : Int32}
    (h : call .indexOf [.string s, .string t] = .ok (.value (.int n))) : FoundAt t s n := by
  obtain ⟨m, hposition, hm⟩ := exists_position hs t
  rw [call_indexOf, hposition] at h
  cases h
  exact hm

theorem call_contains_of_foundAt {n : Int32} (h : FoundAt t s n) :
    call .contains [.string s, .string t] = .ok (.value (.bool (decide (0 ≤ n.toInt)))) := by
  rw [call_contains]
  cases h with
  | first hleast hn =>
      rw [Text.indexOf?_eq_some_iff.2 hleast, hn]
      simp
  | absent hnone =>
      rw [Text.indexOf?_eq_none_iff.2 hnone]
      rfl

/-- A text without characters occurs at the front of every text. -/
theorem foundAt_empty_iff {n : Int32} : FoundAt "" s n ↔ n = 0 := by
  have hzero : IsLeast (Occurrences "".toList s.toList) 0 := Text.isLeast_zero List.nil_prefix
  constructor
  · intro h
    cases h with
    | first hleast hn =>
        rw [hleast.unique hzero] at hn
        exact Int32.toInt_inj.1 hn
    | absent hnone => exact absurd hzero.1 (hnone ▸ Set.notMem_empty 0)
  · rintro rfl
    exact .first hzero rfl

theorem startsWith_iff (hs : s.length ≤ 2147483647) (h : t.length ≤ s.length) :
    t.toList.isPrefixOf s.toList = true ↔
      call .substringOf [.string s, .int 0, .int (countInt t.length)] =
        .ok (.value (.string t)) := by
  have hzero : (0 : Int32).toInt = 0 := rfl
  rw [call_substringOf_eq_ok_iff hs, toInt_countInt (h.trans hs), hzero, isPart_zero_iff,
    List.isPrefixOf_iff_prefix]

theorem endsWith_iff (hs : s.length ≤ 2147483647) (h : t.length ≤ s.length) :
    t.toList.isSuffixOf s.toList = true ↔
      call .substringOf
          [.string s, .int (countInt (s.length - t.length)), .int (countInt t.length)] =
        .ok (.value (.string t)) := by
  have hrest : s.length - t.length ≤ 2147483647 := (Nat.sub_le _ _).trans hs
  rw [call_substringOf_eq_ok_iff hs, toInt_countInt (h.trans hs), toInt_countInt hrest,
    isPart_end_iff h, List.isSuffixOf_iff_suffix]

theorem not_prefix_of_longer (h : s.length < t.length) : t.toList.isPrefixOf s.toList = false := by
  rw [Bool.eq_false_iff, ne_eq, List.isPrefixOf_iff_prefix]
  exact fun hprefix => Nat.not_le_of_lt h hprefix.length_le

theorem not_suffix_of_longer (h : s.length < t.length) : t.toList.isSuffixOf s.toList = false := by
  rw [Bool.eq_false_iff, ne_eq, List.isSuffixOf_iff_suffix]
  exact fun hsuffix => Nat.not_le_of_lt h hsuffix.length_le

theorem countsCharacters (hs : s.length ≤ 2147483647) : CountsCharacters s where
  length := ⟨rfl, toInt_countInt hs⟩
  substring start length h := ⟨_, (call_substringOf_eq_ok_iff hs).2 h.isPart, h.isPart⟩
  substring_fails start length h := callRaises_substringOf hs h
  substring_rest start := call_substring_eq hs start
  charAt i h := call_charAt_of_lt h
  charAt_fails i h := callRaises_charAt h
  indexOf t := by
    obtain ⟨n, hposition, hn⟩ := exists_position hs t
    exact ⟨n, by rw [call_indexOf, hposition], hn⟩
  indexOf_empty := by
    obtain ⟨n, hposition, hn⟩ := exists_position hs ""
    rw [call_indexOf, hposition, foundAt_empty_iff.1 hn]
  indexOf_char c := by
    rw [call_indexOf, String.toList_singleton]
    rfl
  contains t n h := call_contains_of_foundAt (foundAt_of_call hs h)
  startsWith t h := ⟨_, call_startsWith s t, startsWith_iff hs h⟩
  endsWith t h := ⟨_, call_endsWith s t, endsWith_iff hs h⟩
  longer t h := by
    rw [call_startsWith, call_endsWith, not_prefix_of_longer h, not_suffix_of_longer h]
    exact ⟨rfl, rfl⟩

theorem cutsBytes (hs : s.length ≤ 2147483647) : CutsBytes s where
  substring start length part h := by
    have hpart := (call_substringOf_eq_ok_iff hs).1 h
    rw [Text.take_byteOffset, hpart.toList]
  indexOf t n h := by
    cases foundAt_of_call hs h with
    | first hleast hn => exact .inl ⟨_, hn, Text.isLeast_encode hleast⟩
    | absent hnone => exact .inr ⟨rfl, Text.occurrences_encode_eq_empty hnone⟩
  startsWith t b h := by
    rw [call_startsWith] at h
    cases h
    rw [Text.encode_prefix_iff, List.isPrefixOf_iff_prefix]
  endsWith t b h := by
    rw [call_endsWith] at h
    cases h
    rw [Text.encode_suffix_iff, List.isSuffixOf_iff_suffix]

/-- The routines on a text of at most `2 ^ 31 - 1` characters count in characters and agree with
each other, and with what they do to the bytes of the text. -/
theorem text_routines (s : String) (hs : s.length ≤ 2147483647) :
    CountsCharacters s ∧ CutsBytes s :=
  ⟨countsCharacters hs, cutsBytes hs⟩

/-- A text of characters of one, two and four bytes. -/
theorem text_routines_mixed :
    "aé😀aé".length ≤ 2147483647 ∧ CountsCharacters "aé😀aé" ∧ CutsBytes "aé😀aé" := by
  have hlength : "aé😀aé".length ≤ 2147483647 := by decide
  exact ⟨hlength, text_routines _ hlength⟩

end

end Scriptlet.Machine
