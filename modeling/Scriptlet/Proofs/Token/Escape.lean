import Mathlib.Tactic.IntervalCases
import Scriptlet.Proofs.Text.Utf8
import Scriptlet.Proofs.Token.Faults
import Scriptlet.Proofs.Token.Integer

namespace Scriptlet

/-!
# Escape sequences

The content of a literal as a sequence of characters, each of which stands for itself or is written
as an escape sequence. Reading finds the characters of exactly these contents, and in any other it
reports the first backslash that begins no escape sequence. Of the four digits behind `\u` the first
one may also be a plus sign, which the grammar of escape sequences does not have.
-/

namespace Text

/-- The number that a row of hexadecimal digits denotes. -/
def HexNumber (ds : List Char) (n : ℕ) : Prop :=
  ∃ vs, List.Forall₂ (IsDigitOf 16) vs ds ∧ n = vs.foldl (16 * · + ·) 0

/-- The code of a character in four hexadecimal digits. -/
def FourDigits (ds : List Char) (n : ℕ) : Prop :=
  ds.length = 4 ∧ HexNumber ds n

/-- What is read as the code of a character: four digits, or a plus sign and three digits. -/
def SignedDigits (ds : List Char) (n : ℕ) : Prop :=
  FourDigits ds n ∨ ∃ es, ds = '+' :: es ∧ es.length = 3 ∧ HexNumber es n

/-- The letters that stand behind a backslash, and the characters that they stand for. -/
inductive EscapeLetter : Char → Char → Prop
  | newline : EscapeLetter 'n' '\n'
  | tab : EscapeLetter 't' '\t'
  | carriageReturn : EscapeLetter 'r' '\r'
  | nul : EscapeLetter '0' '\x00'
  | backslash : EscapeLetter '\\' '\\'
  | quote : EscapeLetter '"' '"'
  | apostrophe : EscapeLetter '\'' '\''

variable {Code : List Char → ℕ → Prop}

/-- An escape sequence of a character, for a notion of what denotes its code. -/
inductive Escapes (Code : List Char → ℕ → Prop) : List Char → Char → Prop
  | letter {e x : Char} (h : EscapeLetter e x) : Escapes Code ['\\', e] x
  | code {ds : List Char} {x : Char} (h : Code ds x.toNat) : Escapes Code ('\\' :: 'u' :: ds) x

/-- The content of a literal and the text that it denotes. -/
inductive Content (Code : List Char → ℕ → Prop) : List Char → List Char → Prop
  | nil : Content Code [] []
  | plain {c : Char} {s t : List Char} (hc : c ≠ '\\') (h : Content Code s t) :
      Content Code (c :: s) (c :: t)
  | escape {w s t : List Char} {x : Char} (hw : Escapes Code w x) (h : Content Code s t) :
      Content Code (w ++ s) (x :: t)

/-- The characters behind a bad `\u` that are counted to it: those in the next four bytes, or all
that follow if the fourth byte does not end a character. -/
inductive Counted : List Char → List Char → Prop
  | four {a b : List Char} (ha : byteLength a = 4) : Counted (a ++ b) a
  | rest {s : List Char} (h : ∀ a b, s = a ++ b → byteLength a ≠ 4) : Counted s s

/-- A backslash that begins no escape sequence, with what follows it, and what is counted to it. -/
inductive Bad (Code : List Char → ℕ → Prop) : List Char → List Char → Prop
  | last : Bad Code ['\\'] ['\\']
  | letter {c : Char} {s : List Char} (hu : c ≠ 'u') (hc : ∀ x, ¬EscapeLetter c x) :
      Bad Code ('\\' :: c :: s) ['\\', c]
  | code {s a : List Char} (hs : ∀ ds b x, s = ds ++ b → ¬Code ds (Char.toNat x))
      (ha : Counted s a) : Bad Code ('\\' :: 'u' :: s) ('\\' :: 'u' :: a)

/-- The first bad escape sequence of a content is at the place of the error. -/
def Faulty (Code : List Char → ℕ → Prop) (s : List Char) (e : EscapeError) : Prop :=
  ∃ front t bad extent, s = front ++ bad ∧ Content Code front t ∧ Bad Code bad extent ∧
    e = ⟨byteLength front, byteLength extent⟩

section

variable {c x : Char} {d n offset : ℕ} {s t ds w a : List Char}

/-! ### Digits and letters -/

theorem hexDigit?_eq_some_iff : hexDigit? c = some d ↔ IsDigitOf 16 d c := by
  refine ⟨fun h => ?_, fun h => h.isHexDigit.2⟩
  unfold hexDigit? at h
  rw [← Char.ofNat_toNat c]
  simp only [Char.le_def, UInt32.le_iff_toNat_le] at h
  have hnumber : c.val.toNat = c.toNat := rfl
  simp only [hnumber] at h
  generalize c.toNat = n at h ⊢
  split at h
  · next hn =>
      obtain ⟨hlow, hhigh⟩ : 48 ≤ n ∧ n ≤ 57 := hn
      cases h
      interval_cases n <;> decide
  · split at h
    · next hn =>
        obtain ⟨hlow, hhigh⟩ : 97 ≤ n ∧ n ≤ 102 := hn
        cases h
        interval_cases n <;> decide
    · split at h
      · next hn =>
          obtain ⟨hlow, hhigh⟩ : 65 ≤ n ∧ n ≤ 70 := hn
          cases h
          interval_cases n <;> decide
      · cases h

theorem hexValue?_eq_some_iff : hexValue? ds = some n ↔ HexNumber ds n := by
  unfold hexValue? HexNumber
  generalize 0 = m
  induction ds generalizing m with
  | nil => simp [eq_comm]
  | cons c ds ih =>
      rw [List.foldlM_cons]
      constructor
      · intro h
        obtain ⟨k, hk, h⟩ := Option.bind_eq_some_iff.1 h
        obtain ⟨v, hv, rfl⟩ := Option.map_eq_some_iff.1 hk
        obtain ⟨vs, hvs, hn⟩ := (ih _).1 h
        exact ⟨v :: vs, .cons (hexDigit?_eq_some_iff.1 hv) hvs, hn⟩
      · rintro ⟨vs, hvs, hn⟩
        cases hvs with
        | cons hv hvs =>
            rw [hexDigit?_eq_some_iff.2 hv]
            exact (ih _).2 ⟨_, hvs, hn⟩

theorem escapedChar?_eq_some_iff : escapedChar? c = some x ↔ EscapeLetter c x := by
  constructor
  · intro h
    unfold escapedChar? at h
    split at h <;> cases h <;> constructor
  · intro h
    cases h <;> rfl

theorem EscapeLetter.ne_u (h : EscapeLetter c x) : c ≠ 'u' := by
  cases h <;> decide

theorem HexNumber.ne_plus {es : List Char} (h : HexNumber (c :: es) n) : c ≠ '+' := by
  obtain ⟨vs, hvs, -⟩ := h
  cases hvs with
  | cons hv _ =>
      rintro rfl
      have hdigit := hv.isHexDigit.1
      revert hdigit
      decide

theorem SignedDigits.length_eq (h : SignedDigits ds n) : ds.length = 4 := by
  obtain ⟨hlength, -⟩ | ⟨es, rfl, hlength, -⟩ := h
  · exact hlength
  · rw [List.length_cons, hlength]

theorem codeChar?_eq_some_iff {a b c d x : Char} :
    codeChar? a b c d = some x ↔ SignedDigits [a, b, c, d] x.toNat := by
  have hchar {n : ℕ} : (if n.isValidChar then some (Char.ofNat n) else none) = some x ↔
      n = x.toNat := by
    constructor
    · intro h
      split at h
      · next hvalid =>
          cases h
          exact (toNat_ofNat_of_isValidChar hvalid).symm
      · cases h
    · rintro rfl
      have hvalid : x.toNat.isValidChar := x.valid
      rw [if_pos hvalid, Char.ofNat_toNat]
  have hdigits {ds : List Char} :
      ((hexValue? ds).bind fun n => if n.isValidChar then some (Char.ofNat n) else none) = some x ↔
        HexNumber ds x.toNat := by
    rw [← hexValue?_eq_some_iff, Option.bind_eq_some_iff]
    constructor
    · rintro ⟨n, hn, h⟩
      rw [hn, hchar.1 h]
    · exact fun h => ⟨_, h, hchar.2 rfl⟩
  unfold codeChar?
  dsimp only
  rw [hdigits]
  by_cases ha : a = '+'
  · subst ha
    rw [if_pos rfl]
    constructor
    · exact fun h => .inr ⟨_, rfl, rfl, h⟩
    · rintro (⟨-, h⟩ | ⟨es, hes, -, h⟩)
      · exact absurd rfl h.ne_plus
      · obtain ⟨-, rfl⟩ := List.cons.inj hes
        exact h
  · rw [if_neg ha]
    constructor
    · exact fun h => .inl ⟨rfl, h⟩
    · rintro (⟨-, h⟩ | ⟨es, hes, -, -⟩)
      · exact h
      · exact absurd (List.cons.inj hes).1 ha

/-! ### What is read -/

theorem byteLength_backslash (s : List Char) : byteLength ('\\' :: s) = 1 + byteLength s :=
  byteLength_cons '\\' s

/-- An escape sequence at the front is read as its character. -/
theorem unescapeFrom_escape (h : Escapes SignedDigits w x) (offset : ℕ) (s : List Char) :
    unescapeFrom offset (w ++ s) = (unescapeFrom (offset + byteLength w) s).map (x :: ·) := by
  cases h with
  | @letter e _ h =>
      have hsize := utf8Size_of_escapedChar? (escapedChar?_eq_some_iff.2 h)
      have hlength : byteLength ['\\', e] = 2 := by
        rw [byteLength_backslash, byteLength_cons, hsize, byteLength_nil]
      rw [hlength, List.cons_append, List.cons_append, List.nil_append, unescapeFrom.eq_5,
        escapedChar?_eq_some_iff.2 h]
      · intro a b c d t he
        exact absurd he h.ne_u
      · exact h.ne_u
  | @code ds _ h =>
      obtain ⟨a, b, c, d, rfl⟩ := List.length_eq_four.1 h.length_eq
      have hcode := codeChar?_eq_some_iff.2 h
      have hlength : byteLength ('\\' :: 'u' :: [a, b, c, d]) = 6 := by
        have hletter : 'u'.utf8Size = 1 := by decide
        rw [byteLength_backslash, byteLength_cons, byteLength_of_codeChar? hcode, hletter]
      rw [hlength]
      exact (unescapeFrom.eq_3 offset a b c d s).trans (by rw [hcode])

theorem unescapeFrom_plain (hc : c ≠ '\\') (offset : ℕ) (s : List Char) :
    unescapeFrom offset (c :: s) = (unescapeFrom (offset + c.utf8Size) s).map (c :: ·) := by
  rw [unescapeFrom.eq_6]
  · rintro rfl
    exact absurd rfl hc
  · rintro a b d e t rfl
    exact absurd rfl hc
  · rintro t rfl
    exact absurd rfl hc
  · rintro d t rfl
    exact absurd rfl hc

/-- Reading goes on behind a content. -/
theorem unescapeFrom_append (h : Content SignedDigits s t) (offset : ℕ) (rest : List Char) :
    unescapeFrom offset (s ++ rest) =
      (unescapeFrom (offset + byteLength s) rest).map (t ++ ·) := by
  have hmap (x : Char) (t : List Char) (r : Except EscapeError (List Char)) :
      (r.map (t ++ ·)).map (x :: ·) = r.map (x :: t ++ ·) := by
    cases r <;> rfl
  induction h generalizing offset with
  | nil =>
      rw [List.nil_append, byteLength_nil, Nat.add_zero]
      cases unescapeFrom offset rest <;> rfl
  | plain hc _ ih =>
      rw [List.cons_append, unescapeFrom_plain hc, ih, hmap, byteLength_cons, Nat.add_assoc]
  | escape hw _ ih =>
      rw [List.append_assoc, unescapeFrom_escape hw, ih, hmap, byteLength_append, Nat.add_assoc]

theorem badCodeLength_eq (h : Counted s a) : badCodeLength s = byteLength ('\\' :: 'u' :: a) := by
  have hfront : (frontOfBytes? 4 s).getD s = a := by
    cases h with
    | @four a b ha => rw [frontOfBytes?_eq_some_iff.2 ⟨⟨b, rfl⟩, ha⟩, Option.getD_some]
    | rest h =>
        cases hfour : frontOfBytes? 4 s with
        | none => rfl
        | some a =>
            obtain ⟨⟨b, hb⟩, ha⟩ := frontOfBytes?_eq_some_iff.1 hfour
            exact absurd ha (h a b hb)
  have hletter : 'u'.utf8Size = 1 := by decide
  rw [badCodeLength, hfront, byteLength_backslash, byteLength_cons, hletter, ← Nat.add_assoc]

/-- Reading fails at a bad escape sequence. -/
theorem unescapeFrom_bad {bad extent : List Char} (h : Bad SignedDigits bad extent) (offset : ℕ) :
    unescapeFrom offset bad = .error ⟨offset, byteLength extent⟩ := by
  cases h with
  | last => rfl
  | @letter c s hu hc =>
      have hnone : escapedChar? c = none :=
        Option.eq_none_iff_forall_ne_some.2 fun x hx => hc x (escapedChar?_eq_some_iff.1 hx)
      rw [unescapeFrom.eq_5 _ _ _ (fun _ _ _ _ _ he => absurd he hu) hu, hnone,
        byteLength_backslash, byteLength_cons, byteLength_nil]
      rfl
  | @code s a hs ha =>
      rw [← badCodeLength_eq ha]
      obtain _ | ⟨a, _ | ⟨b, _ | ⟨c, _ | ⟨d, s⟩⟩⟩⟩ := s
      -- Up to three characters are too few.
      iterate 4 rfl
      have hnone : codeChar? a b c d = none :=
        Option.eq_none_iff_forall_ne_some.2 fun x hx =>
          hs [a, b, c, d] s x rfl (codeChar?_eq_some_iff.1 hx)
      rw [unescapeFrom.eq_3, hnone]

theorem exists_counted (s : List Char) : ∃ a, Counted s a := by
  by_cases h : ∃ a b, s = a ++ b ∧ byteLength a = 4
  · obtain ⟨a, b, rfl, ha⟩ := h
    exact ⟨a, .four ha⟩
  · exact ⟨s, .rest fun a b hs ha => h ⟨a, b, hs, ha⟩⟩

/-- A text is a content, or it is one up to a bad escape sequence. -/
def Divides (Code : List Char → ℕ → Prop) (s : List Char) : Prop :=
  ∃ front t, Content Code front t ∧
    (s = front ∨ ∃ bad extent, s = front ++ bad ∧ Bad Code bad extent)

theorem Bad.divides {extent : List Char} (h : Bad Code s extent) : Divides Code s :=
  ⟨[], [], .nil, .inr ⟨s, extent, rfl, h⟩⟩

theorem Divides.plain (hc : c ≠ '\\') (h : Divides Code s) : Divides Code (c :: s) := by
  obtain ⟨front, t, hfront, rfl | ⟨bad, extent, rfl, hbad⟩⟩ := h
  · exact ⟨c :: s, c :: t, .plain hc hfront, .inl rfl⟩
  · exact ⟨c :: front, c :: t, .plain hc hfront, .inr ⟨bad, extent, rfl, hbad⟩⟩

theorem Divides.escape (hw : Escapes Code w x) (h : Divides Code s) : Divides Code (w ++ s) := by
  obtain ⟨front, t, hfront, rfl | ⟨bad, extent, rfl, hbad⟩⟩ := h
  · exact ⟨w ++ s, x :: t, .escape hw hfront, .inl rfl⟩
  · refine ⟨w ++ front, x :: t, .escape hw hfront, .inr ⟨bad, extent, ?_, hbad⟩⟩
    rw [List.append_assoc]

theorem divides (Code : List Char → ℕ → Prop) (s : List Char) : Divides Code s := by
  induction hlength : s.length using Nat.strongRecOn generalizing s with
  | ind k ih =>
      subst hlength
      match s with
      | [] => exact ⟨[], [], .nil, .inl rfl⟩
      | c :: s =>
          by_cases hc : c = '\\'
          case neg => exact .plain hc (ih s.length (Nat.lt_succ_self _) s rfl)
          subst hc
          match s with
          | [] => exact Bad.last.divides
          | c :: s =>
              by_cases hletter : ∃ x, EscapeLetter c x
              · obtain ⟨x, hx⟩ := hletter
                exact .escape (.letter hx) (ih s.length (by simp) s rfl)
              by_cases hu : c = 'u'
              case neg => exact (Bad.letter hu fun x hx => hletter ⟨x, hx⟩).divides
              subst hu
              by_cases hcode : ∃ ds b x, s = ds ++ b ∧ Code ds (Char.toNat x)
              · obtain ⟨ds, b, x, rfl, hx⟩ := hcode
                exact .escape (.code hx) (ih b.length (by simp; omega) b rfl)
              · obtain ⟨a, ha⟩ := exists_counted s
                refine (Bad.code (fun ds b x hs hx => hcode ⟨ds, b, x, hs, hx⟩) ha).divides

theorem unescape_of_content (h : Content SignedDigits s t) : unescape s = .ok t := by
  have happend := unescapeFrom_append h 0 []
  rw [List.append_nil, unescapeFrom.eq_1] at happend
  exact happend.trans (congrArg Except.ok (List.append_nil t))

theorem unescape_of_faulty {e : EscapeError} (h : Faulty SignedDigits s e) :
    unescape s = .error e := by
  obtain ⟨front, t, bad, extent, rfl, hfront, hbad, rfl⟩ := h
  rw [unescape, unescapeFrom_append hfront, unescapeFrom_bad hbad, Nat.zero_add]
  rfl

/-- Reading succeeds on contents, and on nothing else. -/
theorem unescape_eq_ok_iff : unescape s = .ok t ↔ Content SignedDigits s t := by
  refine ⟨fun h => ?_, unescape_of_content⟩
  obtain ⟨front, t', hfront, rfl | ⟨bad, extent, rfl, hbad⟩⟩ := divides SignedDigits s
  · cases h.symm.trans (unescape_of_content hfront)
    exact hfront
  · cases h.symm.trans (unescape_of_faulty ⟨front, t', bad, extent, rfl, hfront, hbad, rfl⟩)

/-- Reading fails at the first bad escape sequence, and for no other reason. -/
theorem unescape_eq_error_iff {e : EscapeError} :
    unescape s = .error e ↔ Faulty SignedDigits s e := by
  refine ⟨fun h => ?_, unescape_of_faulty⟩
  obtain ⟨front, t', hfront, rfl | ⟨bad, extent, rfl, hbad⟩⟩ := divides SignedDigits s
  · cases h.symm.trans (unescape_of_content hfront)
  · have hfaulty : Faulty SignedDigits (front ++ bad) ⟨byteLength front, byteLength extent⟩ :=
      ⟨front, t', bad, extent, rfl, hfront, hbad, rfl⟩
    cases h.symm.trans (unescape_of_faulty hfaulty)
    exact hfaulty

/-! ### Without a plus sign -/

variable {Code' : List Char → ℕ → Prop}

theorem Escapes.congr (hcode : ∀ ds n, '\\' :: 'u' :: ds <:+: w → (Code ds n ↔ Code' ds n))
    (h : Escapes Code w x) : Escapes Code' w x := by
  cases h with
  | letter h => exact .letter h
  | code h => exact .code ((hcode _ _ List.infix_rfl).1 h)

theorem Content.congr (hcode : ∀ ds n, '\\' :: 'u' :: ds <:+: s → (Code ds n ↔ Code' ds n))
    (h : Content Code s t) : Content Code' s t := by
  induction h with
  | nil => exact .nil
  | plain hc _ ih => exact .plain hc (ih fun ds n hds => hcode ds n (List.infix_cons hds))
  | escape hw _ ih =>
      refine .escape (hw.congr fun ds n hds => hcode ds n (hds.trans ?_))
        (ih fun ds n hds => hcode ds n (hds.trans ?_))
      · exact (List.prefix_append _ _).isInfix
      · exact (List.suffix_append _ _).isInfix

theorem Bad.congr {extent : List Char}
    (hcode : ∀ ds n, '\\' :: 'u' :: ds <:+: s → (Code ds n ↔ Code' ds n))
    (h : Bad Code s extent) : Bad Code' s extent := by
  cases h with
  | last => exact .last
  | letter hu hc => exact .letter hu hc
  | code hs ha =>
      refine .code (fun ds b x hds hx => hs ds b x hds ((hcode ds _ ?_).2 hx)) ha
      rw [hds]
      exact ⟨[], b, rfl⟩

theorem Faulty.congr {e : EscapeError}
    (hcode : ∀ ds n, '\\' :: 'u' :: ds <:+: s → (Code ds n ↔ Code' ds n))
    (h : Faulty Code s e) : Faulty Code' s e := by
  obtain ⟨front, t, bad, extent, rfl, hfront, hbad, he⟩ := h
  refine ⟨front, t, bad, extent, rfl, hfront.congr fun ds n hds => hcode ds n (hds.trans ?_),
    hbad.congr fun ds n hds => hcode ds n (hds.trans ?_), he⟩
  · exact (List.prefix_append _ _).isInfix
  · exact (List.suffix_append _ _).isInfix

/-- Where no plus sign stands behind `\u`, the code is four digits. -/
theorem signedDigits_iff (hplus : ¬['\\', 'u', '+'] <:+: s)
    (hds : '\\' :: 'u' :: ds <:+: s) : SignedDigits ds n ↔ FourDigits ds n := by
  refine ⟨fun h => ?_, .inl⟩
  obtain h | ⟨es, rfl, -⟩ := h
  · exact h
  · have hfront : ['\\', 'u', '+'] <:+: '\\' :: 'u' :: '+' :: es := ⟨[], es, rfl⟩
    exact absurd (hfront.trans hds) hplus

theorem byteLength_eq_length (h : ∀ c ∈ s, c.utf8Size = 1) : byteLength s = s.length := by
  induction s with
  | nil => rfl
  | cons c s ih =>
      obtain ⟨hc, hs⟩ := List.forall_mem_cons.1 h
      rw [byteLength_cons, hc, ih hs, List.length_cons, Nat.add_comm]

theorem Bad.isFront {extent : List Char} (h : Bad Code s extent) : extent <+: s := by
  cases h with
  | last => exact List.prefix_rfl
  | @letter c s hu hc => exact ⟨s, rfl⟩
  | code hs ha =>
      cases ha with
      | @four a b ha => exact ⟨b, rfl⟩
      | rest => exact List.prefix_rfl

/-- What is counted to a bad escape sequence has at most six bytes, or is all that follows because a
character of more than one byte is in the way. -/
theorem Bad.length_le {extent : List Char} (h : Bad Code s extent) :
    byteLength extent ≤ 6 ∨ extent = s ∧ ∃ c ∈ s, c.utf8Size ≠ 1 := by
  cases h with
  | last => exact .inl (by decide)
  | @letter c s hu hc =>
      have hsize := c.utf8Size_le_four
      refine .inl ?_
      rw [byteLength_backslash, byteLength_cons, byteLength_nil]
      omega
  | @code s a hs ha =>
      have hletter : 'u'.utf8Size = 1 := by decide
      rw [byteLength_backslash, byteLength_cons, hletter]
      cases ha with
      | four ha => exact .inl (by omega)
      | rest h =>
          by_cases hwide : ∃ c ∈ s, c.utf8Size ≠ 1
          · obtain ⟨c, hc, hsize⟩ := hwide
            exact .inr ⟨rfl, c, List.mem_cons_of_mem _ (List.mem_cons_of_mem _ hc), hsize⟩
          · have hall (c : Char) (hc : c ∈ s) : c.utf8Size = 1 := by
              by_contra hsize
              exact hwide ⟨c, hc, hsize⟩
            have hshort : s.length < 4 := by
              by_contra hlong
              refine h _ _ (List.take_append_drop 4 s).symm ?_
              rw [byteLength_eq_length fun c hc => hall c (List.mem_of_mem_take hc),
                List.length_take]
              omega
            refine .inl ?_
            rw [byteLength_eq_length hall]
            omega

/-- Reading accepts exactly the contents with four digits behind `\u`, of which the first may be a
plus sign, and only where there is such a sign this differs from four hexadecimal digits. In any
other text it reports the first bad escape sequence, with at most six bytes or with all that
follows. -/
theorem unescape_reads_contents (s : List Char) :
    (∀ t, unescape s = .ok t ↔ Content SignedDigits s t) ∧
      (∀ e, unescape s = .error e ↔ Faulty SignedDigits s e) ∧
      (¬['\\', 'u', '+'] <:+: s →
        (∀ t, unescape s = .ok t ↔ Content FourDigits s t) ∧
          ∀ e, unescape s = .error e ↔ Faulty FourDigits s e) ∧
      ∀ bad extent, Bad SignedDigits bad extent → extent <+: bad ∧
        (byteLength extent ≤ 6 ∨ extent = bad ∧ ∃ c ∈ bad, c.utf8Size ≠ 1) := by
  refine ⟨fun t => unescape_eq_ok_iff, fun e => unescape_eq_error_iff, fun hplus => ?_,
    fun bad extent hbad => ⟨hbad.isFront, hbad.length_le⟩⟩
  have hcode (ds : List Char) (n : ℕ) (hds : '\\' :: 'u' :: ds <:+: s) :
      SignedDigits ds n ↔ FourDigits ds n := signedDigits_iff hplus hds
  refine ⟨fun t => unescape_eq_ok_iff.trans ⟨?_, ?_⟩, fun e => unescape_eq_error_iff.trans ⟨?_, ?_⟩⟩
  · exact Content.congr hcode
  · exact Content.congr fun ds n hds => (hcode ds n hds).symm
  · exact Faulty.congr hcode
  · exact Faulty.congr fun ds n hds => (hcode ds n hds).symm

/-- A plus sign is read as a digit, and a character of two bytes across the end of the four bytes
makes the error cover all that follows. -/
theorem unescape_beyond_grammar :
    (unescape ['\\', 'u', '+', '0', '4', '1'] = .ok ['A'] ∧
        ¬∃ t, Content FourDigits ['\\', 'u', '+', '0', '4', '1'] t) ∧
      unescape ['\\', 'u', '1', '2', '3', 'é', '4', '5', '6'] = .error ⟨0, 10⟩ ∧
      byteLength ['\\', 'u', '1', '2', '3', 'é'] = 7 := by
  refine ⟨⟨rfl, ?_⟩, rfl, rfl⟩
  rintro ⟨t, h⟩
  generalize hs : ['\\', 'u', '+', '0', '4', '1'] = s at h
  cases h with
  | nil => cases hs
  | plain hc _ => exact hc (List.cons.inj hs).1.symm
  | escape hw _ =>
      cases hw with
      | letter he => exact he.ne_u (List.cons.inj (List.cons.inj hs).2).1.symm
      | @code ds x hds =>
          obtain ⟨hlength, hnumber⟩ := hds
          cases ds with
          | nil => cases hlength
          | cons d ds =>
              have hplus := (List.cons.inj (List.cons.inj (List.cons.inj hs).2).2).1
              exact hnumber.ne_plus hplus.symm

end

end Text

end Scriptlet
