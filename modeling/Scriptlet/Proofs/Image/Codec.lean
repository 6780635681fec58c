import Mathlib.Algebra.Ring.Nat
import Mathlib.Data.List.Forall2
import Scriptlet.Image.Codec
import Scriptlet.Proofs.Text.Utf8

namespace Scriptlet.Image

/-!
# Faithful codecs

A faithful codec reads just the spellings of its values. Nearly all values have one spelling, the
bytes that the codec writes; a number that is no number has several of the same length. Lengths are
written in eight bytes, so lists and texts must not be longer than that can tell.
-/

/-- How the values of a type are spelled. -/
structure Spelling (α : Type) where
  Spells : α → List UInt8 → Prop
  /-- Whether the lengths of the parts of a value can be written. -/
  Fits : α → Prop
  /-- Whether a value has one spelling. -/
  Plain : α → Prop

namespace Spelling

/-- What is written is a spelling, and the only one of a plain value. -/
structure Covers {α : Type} (S : Spelling α) (put : α → List UInt8) : Prop where
  spells_put : ∀ a, S.Fits a → S.Spells a (put a)
  fits : ∀ a bytes, S.Spells a bytes → S.Fits a
  length_eq : ∀ a bytes, S.Spells a bytes → bytes.length = (put a).length
  eq_put : ∀ a bytes, S.Spells a bytes → S.Plain a → bytes = put a

/-- The spelling of values that are all plain. -/
def exact {α : Type} (put : α → List UInt8) : Spelling α where
  Spells a bytes := bytes = put a
  Fits _ := True
  Plain _ := True

def pair {α β : Type} (S : Spelling α) (T : Spelling β) : Spelling (α × β) where
  Spells p bytes := ∃ x y, S.Spells p.1 x ∧ T.Spells p.2 y ∧ bytes = x ++ y
  Fits p := S.Fits p.1 ∧ T.Fits p.2
  Plain p := S.Plain p.1 ∧ T.Plain p.2

/-- Lists are spelled as their length and the spellings of their values. -/
def list {α : Type} (S : Spelling α) : Spelling (List α) where
  Spells as bytes := as.length < UInt64.size ∧ ∃ parts, List.Forall₂ S.Spells as parts ∧
    bytes = Codec.word64.put (UInt64.ofNat as.length) ++ parts.flatten
  Fits as := as.length < UInt64.size ∧ ∀ a ∈ as, S.Fits a
  Plain as := ∀ a ∈ as, S.Plain a

def comap {α β : Type} (S : Spelling α) (of : β → α) : Spelling β where
  Spells b := S.Spells (of b)
  Fits b := S.Fits (of b)
  Plain b := S.Plain (of b)

/-- Alternatives are spelled as their number and their payload. -/
def choice {α : Type} (number : α → Nat) (S : Spelling α) : Spelling α where
  Spells a bytes := ∃ front, S.Spells a front ∧
    bytes = Codec.word32.put (UInt32.ofNat (number a)) ++ front
  Fits := S.Fits
  Plain := S.Plain

variable {α β : Type} {S : Spelling α} {T : Spelling β} {put : α → List UInt8}

theorem covers_exact (put : α → List UInt8) : (exact put).Covers put where
  spells_put _ _ := rfl
  fits _ _ _ := trivial
  length_eq _ _ h := congrArg List.length h
  eq_put _ _ h _ := h

theorem Covers.pair {put' : β → List UInt8} (hS : S.Covers put) (hT : T.Covers put') :
    (S.pair T).Covers fun p => put p.1 ++ put' p.2 where
  spells_put p h := ⟨_, _, hS.spells_put _ h.1, hT.spells_put _ h.2, rfl⟩
  fits p bytes := by
    rintro ⟨x, y, hx, hy, -⟩
    exact ⟨hS.fits _ _ hx, hT.fits _ _ hy⟩
  length_eq p bytes := by
    rintro ⟨x, y, hx, hy, rfl⟩
    rw [List.length_append, List.length_append, hS.length_eq _ _ hx, hT.length_eq _ _ hy]
  eq_put p bytes := by
    rintro ⟨x, y, hx, hy, rfl⟩ ⟨hp, hp'⟩
    rw [hS.eq_put _ _ hx hp, hT.eq_put _ _ hy hp']

theorem Covers.comap (hS : S.Covers put) (of : β → α) :
    (S.comap of).Covers fun b => put (of b) where
  spells_put b := hS.spells_put (of b)
  fits b := hS.fits (of b)
  length_eq b := hS.length_eq (of b)
  eq_put b := hS.eq_put (of b)

theorem Covers.choice (hS : S.Covers put) (number : α → Nat) :
    (S.choice number).Covers fun a =>
      Codec.word32.put (UInt32.ofNat (number a)) ++ put a where
  spells_put a h := ⟨_, hS.spells_put a h, rfl⟩
  fits a bytes := by
    rintro ⟨front, hfront, -⟩
    exact hS.fits a front hfront
  length_eq a bytes := by
    rintro ⟨front, hfront, rfl⟩
    rw [List.length_append, List.length_append, hS.length_eq a front hfront]
  eq_put a bytes := by
    rintro ⟨front, hfront, rfl⟩ ha
    rw [hS.eq_put a front hfront ha]

theorem Covers.list (hS : S.Covers put) :
    S.list.Covers fun as =>
      Codec.word64.put (UInt64.ofNat as.length) ++ as.flatMap put where
  spells_put as h := by
    refine ⟨h.1, as.map put, ?_, rfl⟩
    rw [List.forall₂_map_right_iff, List.forall₂_same]
    intro a ha
    exact hS.spells_put a (h.2 a ha)
  fits as bytes := by
    rintro ⟨hlength, parts, hparts, -⟩
    refine ⟨hlength, fun a ha => ?_⟩
    obtain ⟨k, hk, rfl⟩ := List.mem_iff_getElem.1 ha
    exact hS.fits _ _ (hparts.get hk (hparts.length_eq ▸ hk))
  length_eq as bytes := by
    rintro ⟨-, parts, hparts, rfl⟩
    rw [List.length_append, List.length_append]
    congr 1
    induction hparts with
    | nil => rfl
    | cons ha _ ih => simp only [List.flatten_cons, List.flatMap_cons, List.length_append, ih,
        hS.length_eq _ _ ha]
  eq_put as bytes := by
    rintro ⟨-, parts, hparts, rfl⟩ hplain
    congr 1
    induction hparts with
    | nil => rfl
    | cons ha _ ih =>
        obtain ⟨hp, hps⟩ := List.forall_mem_cons.1 hplain
        rw [List.flatten_cons, List.flatMap_cons, ih hps, hS.eq_put _ _ ha hp]

end Spelling

theorem bind_eq_ok_iff {ε α β : Type} {x : Except ε α} {f : α → Except ε β} {b : β} :
    x >>= f = .ok b ↔ ∃ a, x = .ok a ∧ f a = .ok b := by
  cases x <;> simp [bind, Except.bind]

theorem map_eq_ok_iff {ε α β : Type} {x : Except ε α} {f : α → β} {b : β} :
    x.map f = .ok b ↔ ∃ a, x = .ok a ∧ f a = b := by
  cases x <;> simp [Except.map]

theorem takeBytes_eq_ok_iff {e : ReadError} {n : Nat} {bytes front rest : List UInt8} :
    takeBytes e n bytes = .ok (front, rest) ↔ front.length = n ∧ bytes = front ++ rest := by
  unfold takeBytes
  dsimp only
  split
  · next hlength =>
      rw [Except.ok.injEq, Prod.mk.injEq]
      constructor
      · rintro ⟨rfl, rfl⟩
        exact ⟨hlength, (List.take_append_drop n bytes).symm⟩
      · rintro ⟨rfl, rfl⟩
        exact ⟨List.take_left, List.drop_left⟩
  · next hlength =>
      constructor
      · intro h
        cases h
      · rintro ⟨rfl, rfl⟩
        exact absurd (congrArg List.length List.take_left) hlength

@[simp] theorem length_littleEndian (n k : Nat) : (littleEndian n k).length = n := by
  induction n generalizing k with
  | zero => rfl
  | succ n ih => rw [littleEndian, List.length_cons, ih]

theorem ofLittleEndian_littleEndian (n k : Nat) :
    ofLittleEndian (littleEndian n k) = k % 256 ^ n := by
  induction n generalizing k with
  | zero => rw [littleEndian, ofLittleEndian, Nat.pow_zero, Nat.mod_one]
  | succ n ih =>
      have hsplit : k % (256 * 256 ^ n) = k % 256 + 256 * (k / 256 % 256 ^ n) := Nat.mod_mul
      rw [Nat.pow_succ', hsplit, littleEndian, ofLittleEndian, ih, UInt8.toNat_ofNat']

theorem littleEndian_ofLittleEndian (bytes : List UInt8) :
    littleEndian bytes.length (ofLittleEndian bytes) = bytes := by
  induction bytes with
  | nil => rfl
  | cons b bytes ih =>
      have hlow : UInt8.ofNat (b.toNat + 256 * ofLittleEndian bytes) = b := by
        apply UInt8.toNat_inj.1
        have hb := b.toNat_lt
        rw [UInt8.toNat_ofNat']
        omega
      have hhigh : (b.toNat + 256 * ofLittleEndian bytes) / 256 = ofLittleEndian bytes := by
        have hb := b.toNat_lt
        omega
      rw [ofLittleEndian, List.length_cons, littleEndian, hlow, hhigh, ih]

theorem ofLittleEndian_lt (bytes : List UInt8) : ofLittleEndian bytes < 256 ^ bytes.length := by
  induction bytes with
  | nil => exact Nat.one_pos
  | cons b bytes ih =>
      have hb := b.toNat_lt
      rw [ofLittleEndian, List.length_cons, Nat.pow_succ']
      omega

namespace Codec

variable {α β : Type} {c : Codec α} {d : Codec β} {S : Spelling α} {T : Spelling β}

/-- A codec that reads the spellings of a value, whatever follows them, and nothing else. -/
structure Faithful (c : Codec α) (S : Spelling α) : Prop extends S.Covers c.put where
  get_iff : ∀ bytes a rest,
    c.get bytes = .ok (a, rest) ↔ ∃ front, S.Spells a front ∧ bytes = front ++ rest

/-- A faithful codec of plain values. -/
abbrev Exact (c : Codec α) : Prop :=
  c.Faithful (.exact c.put)

theorem exact_of (h : ∀ bytes a rest, c.get bytes = .ok (a, rest) ↔ bytes = c.put a ++ rest) :
    c.Exact where
  toCovers := Spelling.covers_exact c.put
  get_iff bytes a rest := by
    rw [h]
    exact ⟨fun h => ⟨_, rfl, h⟩, fun ⟨_, hfront, h⟩ => hfront ▸ h⟩

theorem Exact.get_iff (h : c.Exact) {bytes rest : List UInt8} {a : α} :
    c.get bytes = .ok (a, rest) ↔ bytes = c.put a ++ rest := by
  rw [Faithful.get_iff h]
  exact ⟨fun ⟨_, hfront, h⟩ => hfront ▸ h, fun h => ⟨_, rfl, h⟩⟩

theorem Faithful.pair (hc : c.Faithful S) (hd : d.Faithful T) :
    (c.pair d).Faithful (S.pair T) where
  toCovers := hc.toCovers.pair hd.toCovers
  get_iff bytes p rest := by
    simp only [Codec.pair, bind_eq_ok_iff, Prod.exists, hc.get_iff, hd.get_iff]
    constructor
    · rintro ⟨a, _, ⟨x, hx, rfl⟩, b, _, ⟨y, hy, rfl⟩, h⟩
      cases h
      exact ⟨x ++ y, ⟨x, y, hx, hy, rfl⟩, by rw [List.append_assoc]⟩
    · rintro ⟨_, ⟨x, y, hx, hy, rfl⟩, rfl⟩
      exact ⟨p.1, y ++ rest, ⟨x, hx, by rw [List.append_assoc]⟩, p.2, rest, ⟨y, hy, rfl⟩, rfl⟩

theorem Faithful.map (hc : c.Faithful S) {make : α → β} {of : β → α}
    (hmake : ∀ b, make (of b) = b) (hof : ∀ a, of (make a) = a) :
    (c.map make of).Faithful (S.comap of) where
  toCovers := hc.toCovers.comap of
  get_iff bytes b rest := by
    simp only [Codec.map, map_eq_ok_iff, Prod.exists, Prod.mk.injEq, hc.get_iff]
    constructor
    · rintro ⟨a, _, hget, rfl, rfl⟩
      simp only [Spelling.comap, hof]
      exact hget
    · intro hget
      exact ⟨of b, rest, hget, hmake b, rfl⟩

theorem Exact.map (hc : c.Exact) {make : α → β} {of : β → α} (hmake : ∀ b, make (of b) = b)
    (hof : ∀ a, of (make a) = a) : (c.map make of).Exact :=
  Faithful.map hc hmake hof

theorem Exact.pair (hc : c.Exact) (hd : d.Exact) : (c.pair d).Exact := by
  refine exact_of fun bytes p rest => ?_
  rw [Faithful.get_iff (Faithful.pair hc hd)]
  constructor
  · rintro ⟨_, ⟨x, y, rfl, rfl, rfl⟩, rfl⟩
    rfl
  · rintro rfl
    exact ⟨_, ⟨_, _, rfl, rfl, rfl⟩, rfl⟩

theorem get_fixed_iff {n k : Nat} {bytes rest : List UInt8} :
    (fixed n).get bytes = .ok (k, rest) ↔ k < 256 ^ n ∧ bytes = littleEndian n k ++ rest := by
  simp only [fixed, map_eq_ok_iff, Prod.exists, Prod.mk.injEq, takeBytes_eq_ok_iff]
  constructor
  · rintro ⟨front, _, ⟨rfl, rfl⟩, rfl, rfl⟩
    rw [littleEndian_ofLittleEndian]
    exact ⟨ofLittleEndian_lt front, rfl⟩
  · rintro ⟨hk, rfl⟩
    refine ⟨_, rest, ⟨length_littleEndian n k, rfl⟩, ?_, rfl⟩
    rw [ofLittleEndian_littleEndian, Nat.mod_eq_of_lt hk]

/-- Words of `n` bytes. -/
theorem exact_word {n : Nat} {make : Nat → α} {of : α → Nat} (hmake : ∀ a, make (of a) = a)
    (hof : ∀ k < 256 ^ n, of (make k) = k) (hlt : ∀ a, of a < 256 ^ n) :
    ((fixed n).map make of).Exact := by
  refine exact_of fun bytes a rest => ?_
  simp only [Codec.map, map_eq_ok_iff, Prod.exists, Prod.mk.injEq, get_fixed_iff]
  constructor
  · rintro ⟨k, _, ⟨hk, rfl⟩, rfl, rfl⟩
    rw [hof k hk]
    rfl
  · rintro rfl
    exact ⟨of a, rest, ⟨hlt a, rfl⟩, hmake a, rfl⟩

theorem exact_byte : byte.Exact :=
  exact_word (fun _ => UInt8.ofNat_toNat) (fun _ hk => UInt8.toNat_ofNat_of_lt' hk) UInt8.toNat_lt

theorem exact_word16 : word16.Exact :=
  exact_word (fun _ => UInt16.ofNat_toNat) (fun _ hk => UInt16.toNat_ofNat_of_lt' hk)
    UInt16.toNat_lt

theorem exact_word32 : word32.Exact :=
  exact_word (fun _ => UInt32.ofNat_toNat) (fun _ hk => UInt32.toNat_ofNat_of_lt' hk)
    UInt32.toNat_lt

theorem exact_word64 : word64.Exact :=
  exact_word (fun _ => UInt64.ofNat_toNat) (fun _ hk => UInt64.toNat_ofNat_of_lt' hk)
    UInt64.toNat_lt

theorem exact_bool : bool.Exact := by
  refine exact_of fun bytes b rest => ?_
  simp only [bool, bind_eq_ok_iff, Prod.exists, exact_byte.get_iff]
  constructor
  · rintro ⟨n, rest', rfl, h⟩
    split at h
    · next hn =>
        cases h
        rw [hn]
        rfl
    · split at h
      · next hn =>
          cases h
          rw [hn]
          rfl
      · cases h
  · rintro rfl
    cases b
    · exact ⟨0, rest, rfl, rfl⟩
    · exact ⟨1, rest, rfl, rfl⟩

theorem exact_char : char.Exact := by
  refine exact_of fun bytes c rest => ?_
  cases bytes with
  | nil =>
      constructor
      · intro h
        cases h
      · intro h
        exact absurd (List.append_eq_nil_iff.1 h.symm).1 String.utf8EncodeChar_ne_nil
  | cons a bytes =>
      have hfirst : Text.decodeFirst a bytes = .char c rest ↔ a :: bytes = char.put c ++ rest :=
        Text.decodeFirst_eq_char_iff
      rw [← hfirst, char]
      dsimp only
      cases hd : Text.decodeFirst a bytes with
      | char c' rest' => simp
      | invalid length => simp
      | incomplete => simp

/-- Texts are spelled as their length in bytes and their characters. -/
def textSpelling : Spelling String where
  Spells s bytes := (Text.encode s.toList).length < UInt64.size ∧ bytes = string.put s
  Fits s := (Text.encode s.toList).length < UInt64.size
  Plain _ := True

theorem toNat_ofNat_length {n : Nat} (h : n < UInt64.size) : (UInt64.ofNat n).toNat = n :=
  UInt64.toNat_ofNat_of_lt' h

theorem faithful_string : string.Faithful textSpelling where
  spells_put _ h := ⟨h, rfl⟩
  fits _ _ h := h.1
  length_eq _ _ h := congrArg List.length h.2
  eq_put _ _ h _ := h.2
  get_iff bytes s rest := by
    simp only [string, bind_eq_ok_iff, Prod.exists, exact_word64.get_iff, takeBytes_eq_ok_iff]
    constructor
    · rintro ⟨n, _, rfl, front, rest', ⟨hlength, rfl⟩, h⟩
      split at h
      · next cs hcs =>
          cases h
          obtain rfl := Text.decode_eq_ok_iff.1 hcs
          have hfits : (Text.encode cs).length < UInt64.size := hlength ▸ n.toNat_lt
          refine ⟨_, ⟨by rwa [String.toList_ofList], rfl⟩, ?_⟩
          simp only [string, String.toList_ofList, hlength, UInt64.ofNat_toNat, List.append_assoc]
      · cases h
    · rintro ⟨_, ⟨hfits, rfl⟩, rfl⟩
      refine ⟨UInt64.ofNat (Text.encode s.toList).length, Text.encode s.toList ++ rest, ?_,
        Text.encode s.toList, rest, ⟨(toNat_ofNat_length hfits).symm, rfl⟩, ?_⟩
      · simp only [string, List.append_assoc]
      · rw [Text.decode_eq_ok_iff.2 rfl]
        simp only [String.ofList_toList]
        rfl

theorem getMany_iff (hc : c.Faithful S) {n : Nat} {before as : List α} {bytes rest : List UInt8} :
    getMany c n before bytes = .ok (as, rest) ↔ ∃ bs parts, as = before.reverse ++ bs ∧
      bs.length = n ∧ List.Forall₂ S.Spells bs parts ∧ bytes = parts.flatten ++ rest := by
  induction n generalizing before bytes with
  | zero =>
      rw [getMany, Except.ok.injEq, Prod.mk.injEq]
      constructor
      · rintro ⟨rfl, rfl⟩
        exact ⟨[], [], (List.append_nil _).symm, rfl, .nil, rfl⟩
      · rintro ⟨bs, parts, rfl, hlength, hparts, rfl⟩
        obtain rfl := List.eq_nil_of_length_eq_zero hlength
        cases hparts
        exact ⟨(List.append_nil _).symm, rfl⟩
  | succ n ih =>
      rw [getMany]
      constructor
      · intro h
        split at h
        · next a rest' ha =>
            obtain ⟨front, hfront, rfl⟩ := (hc.get_iff _ _ _).1 ha
            obtain ⟨bs, parts, rfl, rfl, hparts, rfl⟩ := ih.1 h
            refine ⟨a :: bs, front :: parts, ?_, rfl, .cons hfront hparts, ?_⟩
            · rw [List.reverse_cons, List.append_assoc, List.singleton_append]
            · rw [List.flatten_cons, List.append_assoc]
        · cases h
      · rintro ⟨bs, parts, rfl, hlength, hparts, rfl⟩
        cases hparts with
        | nil => cases hlength
        | @cons a front bs parts hfront hparts =>
            have hget : c.get ((front :: parts).flatten ++ rest) = .ok (a, parts.flatten ++ rest) :=
              (hc.get_iff _ _ _).2 ⟨front, hfront, by rw [List.flatten_cons, List.append_assoc]⟩
            rw [hget]
            refine ih.2 ⟨bs, parts, ?_, Nat.succ.inj hlength, hparts, rfl⟩
            rw [List.reverse_cons, List.append_assoc, List.singleton_append]

theorem Faithful.list (hc : c.Faithful S) : c.list.Faithful S.list where
  toCovers := hc.toCovers.list
  get_iff bytes as rest := by
    simp only [Codec.list, bind_eq_ok_iff, Prod.exists, exact_word64.get_iff, getMany_iff hc]
    constructor
    · rintro ⟨n, _, rfl, _, parts, rfl, hlength, hparts, rfl⟩
      have hfits : as.length < UInt64.size := hlength ▸ n.toNat_lt
      refine ⟨_, ⟨hfits, parts, hparts, rfl⟩, ?_⟩
      rw [hlength, UInt64.ofNat_toNat, List.append_assoc]
    · rintro ⟨_, ⟨hfits, parts, hparts, rfl⟩, rfl⟩
      exact ⟨_, parts.flatten ++ rest, by rw [List.append_assoc], as, parts, rfl,
        (toNat_ofNat_length hfits).symm, hparts, rfl⟩

theorem Faithful.array (hc : c.Faithful S) : c.array.Faithful (S.list.comap Array.toList) :=
  hc.list.map (fun _ => rfl) fun _ => rfl

theorem part_eq_ok_iff {make : α → β} {b : β} {bytes rest : List UInt8} :
    c.part make bytes = .ok (b, rest) ↔ ∃ a, make a = b ∧ c.get bytes = .ok (a, rest) := by
  simp only [part, map_eq_ok_iff, Prod.exists, Prod.mk.injEq]
  constructor
  · rintro ⟨a, _, hget, rfl, rfl⟩
    exact ⟨a, rfl, hget⟩
  · rintro ⟨a, rfl, hget⟩
    exact ⟨a, rest, hget, rfl, rfl⟩

/-- A choice is faithful if each alternative reads the spellings of the values with its number. -/
theorem faithful_choice {count : Nat} {number : α → Nat} {put : α → List UInt8}
    {get : Nat → List UInt8 → Except ReadError (α × List UInt8)} (hcount : count < UInt32.size)
    (hnumber : ∀ a, number a < count) (hput : S.Covers put)
    (hget : ∀ n < count, ∀ bytes a rest, get n bytes = .ok (a, rest) ↔
      number a = n ∧ ∃ front, S.Spells a front ∧ bytes = front ++ rest) :
    (choice count number put get).Faithful (S.choice number) where
  toCovers := hput.choice number
  get_iff bytes a rest := by
    simp only [choice, bind_eq_ok_iff, Prod.exists, exact_word32.get_iff]
    constructor
    · rintro ⟨n, _, rfl, h⟩
      split at h
      · next hn =>
          obtain ⟨hnumber, front, hfront, rfl⟩ := (hget _ hn _ _ _).1 h
          refine ⟨_, ⟨front, hfront, rfl⟩, ?_⟩
          rw [hnumber, UInt32.ofNat_toNat, List.append_assoc]
      · cases h
    · rintro ⟨_, ⟨front, hfront, rfl⟩, rfl⟩
      have hn : (UInt32.ofNat (number a)).toNat = number a :=
        UInt32.toNat_ofNat_of_lt' (Nat.lt_trans (hnumber a) hcount)
      refine ⟨_, front ++ rest, by rw [List.append_assoc], ?_⟩
      rw [hn, if_pos (hnumber a)]
      exact (hget _ (hnumber a) _ _ _).2 ⟨rfl, front, hfront, rfl⟩

theorem exact_choice {count : Nat} {number : α → Nat} {put : α → List UInt8}
    {get : Nat → List UInt8 → Except ReadError (α × List UInt8)} (hcount : count < UInt32.size)
    (hnumber : ∀ a, number a < count)
    (hget : ∀ n < count, ∀ bytes a rest, get n bytes = .ok (a, rest) ↔
      number a = n ∧ bytes = put a ++ rest) :
    (choice count number put get).Exact := by
  refine exact_of fun bytes a rest => ?_
  rw [(faithful_choice hcount hnumber (Spelling.covers_exact put) ?_).get_iff]
  · constructor
    · rintro ⟨_, ⟨_, rfl, rfl⟩, rfl⟩
      rfl
    · rintro rfl
      exact ⟨_, ⟨_, rfl, rfl⟩, rfl⟩
  · intro n hn bytes a rest
    rw [hget n hn]
    exact and_congr_right fun _ =>
      ⟨fun h => ⟨_, rfl, h⟩, fun ⟨_, hfront, h⟩ => hfront ▸ h⟩

end Codec

end Scriptlet.Image
