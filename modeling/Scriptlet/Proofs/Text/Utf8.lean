import Mathlib.Tactic.SplitIfs
import Scriptlet.Text.Utf8

namespace Scriptlet.Text

/-!
# Encoding and decoding UTF-8

A byte sequence begins with a character exactly if it begins with the bytes of the character: what
is longer than necessary, a surrogate or out of range is no character.
-/

section

variable {b : UInt8}

theorem sequenceLength_eq_one_iff : sequenceLength b = 1 ↔ b.toNat < 0x80 := by
  simp only [sequenceLength, UInt8.lt_iff_toNat_lt, UInt8.reduceToNat]
  grind

theorem sequenceLength_eq_two_iff :
    sequenceLength b = 2 ↔ 0xC2 ≤ b.toNat ∧ b.toNat < 0xE0 := by
  simp only [sequenceLength, UInt8.lt_iff_toNat_lt, UInt8.reduceToNat]
  grind

theorem sequenceLength_eq_three_iff :
    sequenceLength b = 3 ↔ 0xE0 ≤ b.toNat ∧ b.toNat < 0xF0 := by
  simp only [sequenceLength, UInt8.lt_iff_toNat_lt, UInt8.reduceToNat]
  grind

theorem sequenceLength_eq_four_iff :
    sequenceLength b = 4 ↔ 0xF0 ≤ b.toNat ∧ b.toNat < 0xF5 := by
  simp only [sequenceLength, UInt8.lt_iff_toNat_lt, UInt8.reduceToNat]
  grind

theorem isContinuation_iff : isContinuation b = true ↔ 0x80 ≤ b.toNat ∧ b.toNat ≤ 0xBF := by
  simp [isContinuation, UInt8.le_iff_toNat_le]

end

/-- The second byte of a character, by the first one. -/
theorem canFollow_iff {a b : UInt8} : canFollow a b = true ↔
    (0x80 ≤ b.toNat ∧ b.toNat ≤ 0xBF) ∧ (a.toNat = 0xE0 → 0xA0 ≤ b.toNat) ∧
      (a.toNat = 0xED → b.toNat ≤ 0x9F) ∧ (a.toNat = 0xF0 → 0x90 ≤ b.toNat) ∧
        (a.toNat = 0xF4 → b.toNat ≤ 0x8F) := by
  simp only [canFollow, ← UInt8.toNat_inj, UInt8.le_iff_toNat_le, UInt8.reduceToNat]
  split_ifs <;> simp_all [isContinuation_iff] <;> omega

theorem toNat_ofNat_of_isValidChar {n : Nat} (h : n.isValidChar) :
    (Char.ofNat n).val.toNat = n := by
  unfold Char.ofNat
  rw [dif_pos h]
  rfl

theorem ofPayload_two (m n : Nat) : ofPayload [m, n] = Char.ofNat (64 * m + n) := by
  simp [ofPayload]

theorem ofPayload_three (m n k : Nat) :
    ofPayload [m, n, k] = Char.ofNat (64 * (64 * m + n) + k) := by
  simp [ofPayload]

theorem ofPayload_four (m n k l : Nat) :
    ofPayload [m, n, k, l] = Char.ofNat (64 * (64 * (64 * m + n) + k) + l) := by
  simp [ofPayload]

theorem payload_add {b : UInt8} (h : 0x80 ≤ b.toNat) : payload b + 0x80 = b.toNat := by
  unfold payload
  omega

/-- A byte is made of a number that has its value. -/
theorem ofNat_eq {n : Nat} {b : UInt8} (h : n = b.toNat) : UInt8.ofNat n = b := by
  rw [h, UInt8.ofNat_toNat]

section

open String (utf8EncodeChar)

variable {a b d e : UInt8}

theorem utf8EncodeChar_one (ha : a.toNat < 0x80) : utf8EncodeChar (Char.ofNat a.toNat) = [a] := by
  have hvalid : a.toNat.isValidChar := Or.inl (by omega)
  have hle : a.toNat ≤ 127 := by omega
  simp only [utf8EncodeChar, toNat_ofNat_of_isValidChar hvalid, if_pos hle, UInt8.ofNat_toNat]

theorem utf8EncodeChar_two (ha : 0xC2 ≤ a.toNat) (ha' : a.toNat < 0xE0) (hb : canFollow a b) :
    utf8EncodeChar (ofPayload [a.toNat - 0xC0, payload b]) = [a, b] := by
  obtain ⟨⟨hb, hb'⟩, -⟩ := canFollow_iff.1 hb
  rw [ofPayload_two]
  have hpb := payload_add hb
  generalize hv : 64 * (a.toNat - 0xC0) + payload b = v
  have hvalid : v.isValidChar := Or.inl (by omega)
  have hlow : ¬v ≤ 127 := by omega
  have hhigh : v ≤ 2047 := by omega
  have hfirst : v / 64 % 32 + 192 = a.toNat := by omega
  have hlast : v % 64 + 128 = b.toNat := by omega
  simp only [utf8EncodeChar, toNat_ofNat_of_isValidChar hvalid, if_neg hlow, if_pos hhigh,
    List.cons.injEq, and_true]
  exact ⟨ofNat_eq hfirst, ofNat_eq hlast⟩

theorem utf8EncodeChar_three (ha : 0xE0 ≤ a.toNat) (ha' : a.toNat < 0xF0) (hb : canFollow a b)
    (hd : isContinuation d) :
    utf8EncodeChar (ofPayload [a.toNat - 0xE0, payload b, payload d]) = [a, b, d] := by
  obtain ⟨⟨hb, hb'⟩, hshort, hsurrogate, -⟩ := canFollow_iff.1 hb
  obtain ⟨hd, hd'⟩ := isContinuation_iff.1 hd
  rw [ofPayload_three]
  have hpb := payload_add hb
  have hpd := payload_add hd
  generalize hv : 64 * (64 * (a.toNat - 0xE0) + payload b) + payload d = v
  have hvalid : v.isValidChar := by
    unfold Nat.isValidChar
    omega
  have hlow : ¬v ≤ 127 := by omega
  have hmid : ¬v ≤ 2047 := by omega
  have hhigh : v ≤ 65535 := by omega
  have hfirst : v / 4096 % 16 + 224 = a.toNat := by omega
  have hsecond : v / 64 % 64 + 128 = b.toNat := by omega
  have hlast : v % 64 + 128 = d.toNat := by omega
  simp only [utf8EncodeChar, toNat_ofNat_of_isValidChar hvalid, if_neg hlow, if_neg hmid,
    if_pos hhigh, List.cons.injEq, and_true]
  exact ⟨ofNat_eq hfirst, ofNat_eq hsecond, ofNat_eq hlast⟩

theorem utf8EncodeChar_four (ha : 0xF0 ≤ a.toNat) (ha' : a.toNat < 0xF5) (hb : canFollow a b)
    (hd : isContinuation d) (he : isContinuation e) :
    utf8EncodeChar (ofPayload [a.toNat - 0xF0, payload b, payload d, payload e]) =
      [a, b, d, e] := by
  obtain ⟨⟨hb, hb'⟩, -, -, hshort, hgreat⟩ := canFollow_iff.1 hb
  obtain ⟨hd, hd'⟩ := isContinuation_iff.1 hd
  obtain ⟨he, he'⟩ := isContinuation_iff.1 he
  rw [ofPayload_four]
  have hpb := payload_add hb
  have hpd := payload_add hd
  have hpe := payload_add he
  generalize hv : 64 * (64 * (64 * (a.toNat - 0xF0) + payload b) + payload d) +
    payload e = v
  have hvalid : v.isValidChar := Or.inr (by omega)
  have hlow : ¬v ≤ 127 := by omega
  have hmid : ¬v ≤ 2047 := by omega
  have hhigh : ¬v ≤ 65535 := by omega
  have hfirst : v / 262144 % 8 + 240 = a.toNat := by omega
  have hsecond : v / 4096 % 64 + 128 = b.toNat := by omega
  have hthird : v / 64 % 64 + 128 = d.toNat := by omega
  have hlast : v % 64 + 128 = e.toNat := by omega
  simp only [utf8EncodeChar, toNat_ofNat_of_isValidChar hvalid, if_neg hlow, if_neg hmid,
    if_neg hhigh, List.cons.injEq, and_true]
  exact ⟨ofNat_eq hfirst, ofNat_eq hsecond, ofNat_eq hthird, ofNat_eq hlast⟩

variable {c : Char} {rest tail : List UInt8}

theorem eq_utf8EncodeChar_of_decodeFirst (h : decodeFirst a rest = .char c tail) :
    a :: rest = utf8EncodeChar c ++ tail := by
  unfold decodeFirst at h
  split at h
  · next hlength =>
      obtain ⟨rfl, rfl⟩ := Decoded.char.inj h
      rw [utf8EncodeChar_one (sequenceLength_eq_one_iff.1 hlength)]
      rfl
  · next hlength =>
      obtain ⟨hlow, hhigh⟩ := sequenceLength_eq_two_iff.1 hlength
      split at h
      · cases h
      · split at h
        · next hb =>
            obtain ⟨rfl, rfl⟩ := Decoded.char.inj h
            rw [utf8EncodeChar_two hlow hhigh hb]
            rfl
        · cases h
  · next hlength =>
      obtain ⟨hlow, hhigh⟩ := sequenceLength_eq_three_iff.1 hlength
      split at h
      · cases h
      · split at h <;> cases h
      · split at h
        · cases h
        · next hb =>
            split at h
            · cases h
            · next hd =>
                obtain ⟨rfl, rfl⟩ := Decoded.char.inj h
                rw [Bool.not_eq_true', Bool.not_eq_false] at hb hd
                rw [utf8EncodeChar_three hlow hhigh hb hd]
                rfl
  · next hlength =>
      obtain ⟨hlow, hhigh⟩ := sequenceLength_eq_four_iff.1 hlength
      split at h
      · cases h
      · split at h <;> cases h
      · split at h
        · cases h
        · split at h <;> cases h
      · split at h
        · cases h
        · next hb =>
            split at h
            · cases h
            · next hd =>
                split at h
                · cases h
                · next he =>
                    obtain ⟨rfl, rfl⟩ := Decoded.char.inj h
                    rw [Bool.not_eq_true', Bool.not_eq_false] at hb hd he
                    rw [utf8EncodeChar_four hlow hhigh hb hd he]
                    rfl
  · cases h

theorem decodeFirst_one (ha : a.toNat < 0x80) :
    decodeFirst a tail = .char (Char.ofNat a.toNat) tail := by
  have hlength := sequenceLength_eq_one_iff.2 ha
  simp only [decodeFirst, hlength]

theorem decodeFirst_two (ha : 0xC2 ≤ a.toNat) (ha' : a.toNat < 0xE0) (hb : canFollow a b) :
    decodeFirst a (b :: tail) = .char (ofPayload [a.toNat - 0xC0, payload b]) tail := by
  have hlength := sequenceLength_eq_two_iff.2 ⟨ha, ha'⟩
  simp only [decodeFirst, hlength, if_pos hb]

theorem decodeFirst_three (ha : 0xE0 ≤ a.toNat) (ha' : a.toNat < 0xF0) (hb : canFollow a b)
    (hd : isContinuation d) : decodeFirst a (b :: d :: tail) =
      .char (ofPayload [a.toNat - 0xE0, payload b, payload d]) tail := by
  have hlength := sequenceLength_eq_three_iff.2 ⟨ha, ha'⟩
  simp only [decodeFirst, hlength, hb, hd, Bool.not_true, Bool.false_eq_true, if_false]

theorem decodeFirst_four (ha : 0xF0 ≤ a.toNat) (ha' : a.toNat < 0xF5) (hb : canFollow a b)
    (hd : isContinuation d) (he : isContinuation e) : decodeFirst a (b :: d :: e :: tail) =
      .char (ofPayload [a.toNat - 0xF0, payload b, payload d, payload e]) tail := by
  have hlength := sequenceLength_eq_four_iff.2 ⟨ha, ha'⟩
  simp only [decodeFirst, hlength, hb, hd, he, Bool.not_true, Bool.false_eq_true, if_false]

/-! The bytes of a character are its digits, so putting them together gives it back. -/

theorem decodeFirst_digits_two {v : Nat} (hlow : 127 < v) (hhigh : v ≤ 2047) :
    decodeFirst (.ofNat (v / 64 % 32 + 192)) (.ofNat (v % 64 + 128) :: tail) =
      .char (Char.ofNat v) tail := by
  have hfirst : (UInt8.ofNat (v / 64 % 32 + 192)).toNat = v / 64 + 0xC0 := by
    rw [UInt8.toNat_ofNat']
    omega
  have hlast : (UInt8.ofNat (v % 64 + 128)).toNat = v % 64 + 0x80 := by
    rw [UInt8.toNat_ofNat']
    omega
  generalize UInt8.ofNat (v / 64 % 32 + 192) = a at *
  generalize UInt8.ofNat (v % 64 + 128) = b at *
  have hpb := payload_add (b := b) (by omega)
  have hsum : 64 * (a.toNat - 0xC0) + payload b = v := by omega
  have hfollow : canFollow a b = true := canFollow_iff.2 (by omega)
  rw [decodeFirst_two (by omega) (by omega) hfollow, ofPayload_two, hsum]

theorem decodeFirst_digits_three {v : Nat} (hvalid : v.isValidChar) (hlow : 2047 < v)
    (hhigh : v ≤ 65535) :
    decodeFirst (.ofNat (v / 4096 % 16 + 224))
      (.ofNat (v / 64 % 64 + 128) :: .ofNat (v % 64 + 128) :: tail) =
      .char (Char.ofNat v) tail := by
  unfold Nat.isValidChar at hvalid
  have hfirst : (UInt8.ofNat (v / 4096 % 16 + 224)).toNat = v / 4096 + 0xE0 := by
    rw [UInt8.toNat_ofNat']
    omega
  have hsecond : (UInt8.ofNat (v / 64 % 64 + 128)).toNat = v / 64 % 64 + 0x80 := by
    rw [UInt8.toNat_ofNat']
    omega
  have hlast : (UInt8.ofNat (v % 64 + 128)).toNat = v % 64 + 0x80 := by
    rw [UInt8.toNat_ofNat']
    omega
  generalize UInt8.ofNat (v / 4096 % 16 + 224) = a at *
  generalize UInt8.ofNat (v / 64 % 64 + 128) = b at *
  generalize UInt8.ofNat (v % 64 + 128) = d at *
  have hpb := payload_add (b := b) (by omega)
  have hpd := payload_add (b := d) (by omega)
  have hsum : 64 * (64 * (a.toNat - 0xE0) + payload b) + payload d = v := by omega
  have hfollow : canFollow a b = true := canFollow_iff.2 (by omega)
  have hd : isContinuation d = true := isContinuation_iff.2 (by omega)
  rw [decodeFirst_three (by omega) (by omega) hfollow hd, ofPayload_three, hsum]

theorem decodeFirst_digits_four {v : Nat} (hvalid : v.isValidChar) (hlow : 65535 < v) :
    decodeFirst (.ofNat (v / 262144 % 8 + 240))
      (.ofNat (v / 4096 % 64 + 128) :: .ofNat (v / 64 % 64 + 128) :: .ofNat (v % 64 + 128) ::
        tail) = .char (Char.ofNat v) tail := by
  unfold Nat.isValidChar at hvalid
  have hfirst : (UInt8.ofNat (v / 262144 % 8 + 240)).toNat = v / 262144 + 0xF0 := by
    rw [UInt8.toNat_ofNat']
    omega
  have hsecond : (UInt8.ofNat (v / 4096 % 64 + 128)).toNat = v / 4096 % 64 + 0x80 := by
    rw [UInt8.toNat_ofNat']
    omega
  have hthird : (UInt8.ofNat (v / 64 % 64 + 128)).toNat = v / 64 % 64 + 0x80 := by
    rw [UInt8.toNat_ofNat']
    omega
  have hlast : (UInt8.ofNat (v % 64 + 128)).toNat = v % 64 + 0x80 := by
    rw [UInt8.toNat_ofNat']
    omega
  generalize UInt8.ofNat (v / 262144 % 8 + 240) = a at *
  generalize UInt8.ofNat (v / 4096 % 64 + 128) = b at *
  generalize UInt8.ofNat (v / 64 % 64 + 128) = d at *
  generalize UInt8.ofNat (v % 64 + 128) = e at *
  have hpb := payload_add (b := b) (by omega)
  have hpd := payload_add (b := d) (by omega)
  have hpe := payload_add (b := e) (by omega)
  have hsum : 64 * (64 * (64 * (a.toNat - 0xF0) + payload b) + payload d) + payload e = v := by
    omega
  have hfollow : canFollow a b = true := canFollow_iff.2 (by omega)
  have hd : isContinuation d = true := isContinuation_iff.2 (by omega)
  have he : isContinuation e = true := isContinuation_iff.2 (by omega)
  rw [decodeFirst_four (by omega) (by omega) hfollow hd he, ofPayload_four, hsum]

theorem decodeFirst_of_eq_utf8EncodeChar (h : a :: rest = utf8EncodeChar c ++ tail) :
    decodeFirst a rest = .char c tail := by
  have hc : Char.ofNat c.val.toNat = c := Char.ofNat_toNat c
  have hvalid : c.val.toNat.isValidChar := c.valid
  rw [← hc]
  unfold utf8EncodeChar at h
  generalize c.val.toNat = v at *
  simp only at h
  split at h
  · next hone =>
      obtain ⟨rfl, hrest⟩ := List.cons.inj h
      have hav : (UInt8.ofNat v).toNat = v :=
        UInt8.toNat_ofNat_of_lt' (Nat.lt_of_le_of_lt hone (by decide))
      rw [hrest, decodeFirst_one (by omega), hav]
      rfl
  · next hone =>
      split at h
      · next htwo =>
          obtain ⟨rfl, rfl⟩ := List.cons.inj h
          exact decodeFirst_digits_two (Nat.lt_of_not_le hone) htwo
      · next htwo =>
          split at h
          · next hthree =>
              obtain ⟨rfl, rfl⟩ := List.cons.inj h
              exact decodeFirst_digits_three hvalid (Nat.lt_of_not_le htwo) hthree
          · next hthree =>
              obtain ⟨rfl, rfl⟩ := List.cons.inj h
              exact decodeFirst_digits_four hvalid (Nat.lt_of_not_le hthree)

/-- Bytes begin with a character exactly if they begin with the bytes of the character. -/
theorem decodeFirst_eq_char_iff :
    decodeFirst a rest = .char c tail ↔ a :: rest = utf8EncodeChar c ++ tail :=
  ⟨eq_utf8EncodeChar_of_decodeFirst, decodeFirst_of_eq_utf8EncodeChar⟩

end

@[simp] theorem encode_nil : encode [] = [] := rfl

@[simp] theorem encode_cons (c : Char) (s : List Char) :
    encode (c :: s) = String.utf8EncodeChar c ++ encode s := rfl

theorem decodeFrom_encode (index : Nat) (before s : List Char) :
    decodeFrom index before (encode s) = .ok (before.reverse ++ s) := by
  induction s generalizing index before with
  | nil => simp [decodeFrom]
  | cons c s ih =>
      cases hbytes : encode (c :: s) with
      | nil => exact absurd (List.append_eq_nil_iff.1 hbytes).1 String.utf8EncodeChar_ne_nil
      | cons a rest =>
          have hchar : decodeFirst a rest = .char c (encode s) :=
            decodeFirst_eq_char_iff.2 hbytes.symm
          rw [decodeFrom]
          split
          · next c' tail htail =>
              obtain ⟨rfl, rfl⟩ := Decoded.char.inj (hchar.symm.trans htail)
              simp [ih]
          · next hinvalid => cases hchar.symm.trans hinvalid
          · next hincomplete => cases hchar.symm.trans hincomplete

theorem eq_encode_of_decodeFrom {index : Nat} {before s : List Char} {bytes : List UInt8}
    (h : decodeFrom index before bytes = .ok s) :
    ∃ t, s = before.reverse ++ t ∧ bytes = encode t := by
  induction index, before, bytes using decodeFrom.induct with
  | case1 index before =>
      rw [decodeFrom] at h
      cases h
      exact ⟨[], by simp, rfl⟩
  | case2 index before a rest c tail hchar ih =>
      rw [decodeFrom] at h
      split at h
      · next c' tail' htail =>
          obtain ⟨rfl, rfl⟩ := Decoded.char.inj (hchar.symm.trans htail)
          obtain ⟨t, rfl, rfl⟩ := ih h
          refine ⟨c :: t, by simp, ?_⟩
          rw [encode_cons]
          exact decodeFirst_eq_char_iff.1 hchar
      · cases h
      · cases h
  | case3 index before a rest length hinvalid =>
      rw [decodeFrom] at h
      split at h
      · next hchar => cases hinvalid.symm.trans hchar
      · cases h
      · cases h
  | case4 index before a rest hincomplete =>
      rw [decodeFrom] at h
      split at h
      · next hchar => cases hincomplete.symm.trans hchar
      · cases h
      · cases h

theorem decode_eq_ok_iff {bytes : List UInt8} {s : List Char} :
    decode bytes = .ok s ↔ bytes = encode s := by
  constructor
  · intro h
    obtain ⟨t, rfl, rfl⟩ := eq_encode_of_decodeFrom h
    rfl
  · rintro rfl
    exact decodeFrom_encode 0 [] s

end Scriptlet.Text
