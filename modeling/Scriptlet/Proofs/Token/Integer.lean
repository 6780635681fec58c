import Scriptlet.Proofs.Decimal.Digits
import Scriptlet.Proofs.Token.Coverage

namespace Scriptlet

/-!
# Integer literals

The texts of integer literals with the numbers that they denote. Wherever a token has such a text,
its value is that number, unless the number is too large, which is reported.
-/

open Text (Span byteLength)

/-- A character is the digit of a number in a base; letters may be large or small. -/
def IsDigitOf (base d : ℕ) (c : Char) : Prop :=
  d < base ∧ (c = d.digitChar ∨ c = d.digitChar.toUpper)

instance (base d : ℕ) (c : Char) : Decidable (IsDigitOf base d c) :=
  inferInstanceAs (Decidable (_ ∧ _))

/-- The number that a row of digits denotes in a base. Underscores behind the first digit do not
count. -/
inductive Denotes (base : ℕ) : List Char → ℕ → Prop
  | first {d : ℕ} {c : Char} (hc : IsDigitOf base d c) : Denotes base [c] d
  | digit {s : List Char} {n d : ℕ} {c : Char} (hs : Denotes base s n) (hc : IsDigitOf base d c) :
      Denotes base (s ++ [c]) (base * n + d)
  | underscore {s : List Char} {n : ℕ} (hs : Denotes base s n) : Denotes base (s ++ ['_']) n

/-- What may stand behind the digits, and whether it asks for a `long`. -/
inductive LongSuffix : List Char → Bool → Prop
  | none : LongSuffix [] false
  | lower : LongSuffix ['l'] true
  | upper : LongSuffix ['L'] true

/-- The text of an integer literal, the number it denotes, and whether it is marked as `long`. -/
inductive IntegerText : List Char → ℕ → Bool → Prop
  | decimal {digits suffix : List Char} {n : ℕ} {long : Bool} (hdigits : Denotes 10 digits n)
      (hsuffix : LongSuffix suffix long) : IntegerText (digits ++ suffix) n long
  | hex {x : Char} {digits suffix : List Char} {n : ℕ} {long : Bool} (hx : x = 'x' ∨ x = 'X')
      (hdigits : Denotes 16 digits n) (hsuffix : LongSuffix suffix long) :
      IntegerText ('0' :: x :: digits ++ suffix) n long

section

variable {base n d : ℕ} {c x : Char} {s t digits suffix text : List Char} {long : Bool}

theorem IsDigitOf.all {p : ℕ → Char → Prop} (h : IsDigitOf base d c)
    (hp : ∀ d < base, p d d.digitChar ∧ p d d.digitChar.toUpper) : p d c := by
  obtain ⟨hlt, rfl | rfl⟩ := h
  · exact (hp d hlt).1
  · exact (hp d hlt).2

theorem IsDigitOf.mono {base' : ℕ} (h : IsDigitOf base d c) (hle : base ≤ base') :
    IsDigitOf base' d c :=
  ⟨Nat.lt_of_lt_of_le h.1 hle, h.2⟩

theorem IsDigitOf.isDigit (h : IsDigitOf 10 d c) :
    c.isDigit = true ∧ Numeral.digitValue c = d :=
  h.all (p := fun d c => c.isDigit = true ∧ Numeral.digitValue c = d) (by decide)

theorem IsDigitOf.isHexDigit (h : IsDigitOf 16 d c) :
    Lexeme.isHexDigit c = true ∧ Text.hexDigit? c = some d :=
  h.all (p := fun d c => Lexeme.isHexDigit c = true ∧ Text.hexDigit? c = some d) (by decide)

namespace Denotes

theorem exists_cons (h : Denotes base s n) :
    ∃ d c t, s = c :: t ∧ IsDigitOf base d c := by
  induction h with
  | first hc => exact ⟨_, _, _, rfl, hc⟩
  | digit _ _ ih | underscore _ ih =>
      obtain ⟨d, c, t, rfl, hc⟩ := ih
      exact ⟨d, c, _, List.cons_append, hc⟩

theorem ne_nil (h : Denotes base s n) : s ≠ [] := by
  obtain ⟨d, c, t, rfl, -⟩ := h.exists_cons
  exact List.cons_ne_nil c t

/-- A row of digits has nothing but digits and underscores. -/
theorem mem (h : Denotes base s n) : ∀ c ∈ s, c = '_' ∨ ∃ d, IsDigitOf base d c := by
  induction h with
  | first hc =>
      intro c hmem
      obtain rfl := List.mem_singleton.1 hmem
      exact .inr ⟨_, hc⟩
  | digit _ hc ih =>
      intro c hmem
      obtain hmem | hmem := List.mem_append.1 hmem
      · exact ih c hmem
      · obtain rfl := List.mem_singleton.1 hmem
        exact .inr ⟨_, hc⟩
  | underscore _ ih =>
      intro c hmem
      obtain hmem | hmem := List.mem_append.1 hmem
      · exact ih c hmem
      · exact .inl (List.mem_singleton.1 hmem)

end Denotes

namespace Lexeme

theorem withoutUnderscores_concat (hc : c ≠ '_') :
    withoutUnderscores (s ++ [c]) = withoutUnderscores s ++ [c] := by
  simp [withoutUnderscores, hc]

theorem withoutUnderscores_underscore : withoutUnderscores (s ++ ['_']) = withoutUnderscores s := by
  simp [withoutUnderscores]

theorem rowValue_of_denotes (h : Denotes 10 s n) :
    Numeral.rowValue (withoutUnderscores s) = n := by
  have hsingle {d : ℕ} {c : Char} (hc : IsDigitOf 10 d c) :
      c ≠ '_' ∧ Numeral.rowValue [c] = d := by
    obtain ⟨hdigit, hvalue⟩ := hc.isDigit
    refine ⟨fun heq => ?_, (Nat.zero_add _).trans hvalue⟩
    rw [heq] at hdigit
    cases hdigit
  induction h with
  | first hc =>
      have hrow := withoutUnderscores_concat (s := []) (hsingle hc).1
      exact (congrArg Numeral.rowValue hrow).trans (hsingle hc).2
  | digit _ hc ih =>
      rw [withoutUnderscores_concat (hsingle hc).1, Numeral.rowValue_append, ih, (hsingle hc).2]
      exact congrArg (· + _) (Nat.mul_comm _ 10)
  | underscore _ ih => rw [withoutUnderscores_underscore, ih]

theorem hexValue?_concat {m : ℕ} (hs : Text.hexValue? s = some m)
    (hc : Text.hexDigit? c = some d) : Text.hexValue? (s ++ [c]) = some (16 * m + d) := by
  unfold Text.hexValue? at hs ⊢
  rw [List.foldlM_append, hs]
  simp [hc]

theorem hexValue?_of_denotes (h : Denotes 16 s n) :
    Text.hexValue? (withoutUnderscores s) = some n := by
  have hne {d : ℕ} {c : Char} (hc : IsDigitOf 16 d c) : c ≠ '_' := by
    rintro rfl
    have hdigit := hc.isHexDigit.1
    revert hdigit
    decide
  induction h with
  | @first d c hc =>
      have hrow := withoutUnderscores_concat (s := []) (hne hc)
      have hvalue := hexValue?_concat (s := []) rfl hc.isHexDigit.2
      rw [Nat.mul_zero, Nat.zero_add] at hvalue
      exact (congrArg Text.hexValue? hrow).trans hvalue
  | digit _ hc ih =>
      rw [withoutUnderscores_concat (hne hc)]
      exact hexValue?_concat ih hc.isHexDigit.2
  | underscore _ ih => rw [withoutUnderscores_underscore, ih]

theorem not_isLongSuffix (h : Denotes base s n) (hbase : base ≤ 16) :
    ∀ c ∈ s, isLongSuffix c = false := by
  intro c hmem
  obtain rfl | ⟨d, hc⟩ := h.mem c hmem
  · decide
  · exact (hc.mono hbase).all (p := fun _ c => isLongSuffix c = false) (by decide)

theorem dropSuffix_concat (p : Char → Bool) (s : List Char) (c : Char) :
    dropSuffix p (s ++ [c]) = if p c then (s, true) else (s ++ [c], false) := by
  simp [dropSuffix]

theorem dropSuffix_of_forall {p : Char → Bool} (h : ∀ c ∈ s, p c = false) :
    dropSuffix p s = (s, false) := by
  obtain rfl | ⟨t, c, rfl⟩ := s.eq_nil_or_concat'
  · rfl
  · rw [dropSuffix_concat, h c (List.mem_append_right _ List.mem_cons_self),
      if_neg Bool.false_ne_true]

/-- The suffix comes off and the digits stay. -/
theorem dropSuffix_append (h : Denotes base digits n) (hbase : base ≤ 16)
    (hsuffix : LongSuffix suffix long) {front : List Char}
    (hfront : ∀ c ∈ front, isLongSuffix c = false) :
    dropSuffix isLongSuffix (front ++ digits ++ suffix) = (front ++ digits, long) := by
  cases hsuffix with
  | none =>
      have hdigits := not_isLongSuffix h hbase
      rw [List.append_nil]
      exact dropSuffix_of_forall fun c hc => (List.mem_append.1 hc).elim (hfront c) (hdigits c)
  | lower | upper => exact dropSuffix_concat _ _ _

theorem decimalToken_eq (h : Denotes 10 digits n) (hsuffix : LongSuffix suffix long) (span : Span) :
    decimalToken (digits ++ suffix) span = intToken n long span := by
  have hdrop := dropSuffix_append h (by decide) hsuffix (List.forall_mem_nil _)
  rw [List.nil_append] at hdrop
  have hvalue := rowValue_of_denotes h
  simp only [decimalToken, hdrop, Numeral.digitsValue_eq, hvalue]

theorem hexToken_eq (hx : x = 'x' ∨ x = 'X') (h : Denotes 16 digits n)
    (hsuffix : LongSuffix suffix long) (span : Span) :
    hexToken ('0' :: x :: digits ++ suffix) span = intToken n long span := by
  have hfront : ∀ c ∈ ['0', x], isLongSuffix c = false := by
    refine List.forall_mem_cons.2 ⟨rfl, List.forall_mem_singleton.2 ?_⟩
    obtain rfl | rfl := hx <;> rfl
  have hdrop :
      dropSuffix isLongSuffix ('0' :: x :: digits ++ suffix) = ('0' :: x :: digits, long) :=
    dropSuffix_append h (by decide) hsuffix hfront
  have hvalue := hexValue?_of_denotes h
  simp only [hexToken, hdrop, List.drop_succ_cons, List.drop_zero, hvalue, Option.getD_some]

/-! ### Which pattern takes the text -/

theorem scan_digit (hc : c.isDigit = true) (s : List Char) : scan c s = number c s := by
  have hspace : isSpace c = false := by
    by_contra h
    simp only [isSpace, Bool.not_eq_false, Bool.or_eq_true, beq_iff_eq] at h
    obtain (((rfl | rfl) | rfl) | rfl) | rfl := h <;> revert hc <;> decide
  simp only [scan, hspace, Bool.false_eq_true, if_false, hc, if_true]

theorem exists_of_fraction_pos (h : 0 < fraction s) : ∃ t, s = '.' :: t := by
  unfold fraction at h
  split at h
  · exact ⟨_, rfl⟩
  · cases h

theorem exists_of_exponent_pos (h : 0 < exponent s) : ∃ c t, s = c :: t ∧ (c = 'e' ∨ c = 'E') := by
  unfold exponent at h
  split at h
  · next c t =>
      refine ⟨c, t, rfl, ?_⟩
      by_contra hc
      simp only [beq_iff_eq, Bool.or_eq_true, hc, if_false, Nat.lt_irrefl] at h
  · cases h

theorem exists_of_optional_pos {p : Char → Bool} (h : 0 < optional p s) :
    ∃ c t, s = c :: t ∧ p c = true := by
  unfold optional at h
  split at h
  · next c t =>
      refine ⟨c, t, rfl, ?_⟩
      by_contra hc
      simp only [hc, if_false, Nat.lt_irrefl] at h
  · cases h

/-- The characters of a decimal integer. -/
def isDecimalPart (c : Char) : Bool :=
  c == '_' || c.isDigit || isLongSuffix c

theorem isDecimalPart_of_isRealSuffix (h : isRealSuffix c = true) : isDecimalPart c = false := by
  simp only [isRealSuffix, Bool.or_eq_true, beq_iff_eq] at h
  obtain ((rfl | rfl) | rfl) | rfl := h <;> rfl

theorem isDecimalPart_of_mem (h : Denotes 10 digits n) (hsuffix : LongSuffix suffix long) :
    ∀ c ∈ digits ++ suffix, isDecimalPart c = true := by
  intro c hc
  obtain hc | hc := List.mem_append.1 hc
  · obtain rfl | ⟨d, hd⟩ := h.mem c hc
    · rfl
    · simp [isDecimalPart, hd.isDigit.1]
  · cases hsuffix with
    | none => exact absurd hc List.not_mem_nil
    | lower | upper =>
        obtain rfl := List.mem_singleton.1 hc
        rfl

/-- A real number goes on behind its first digits with a character that no integer has. -/
theorem exists_of_decimal_real (h : (decimal s).1 = .real) : ∃ c t,
    s.drop (digitRun s) = c :: t ∧ isDecimalPart c = false ∧ digitRun s < (decimal s).2 := by
  unfold decimal at h ⊢
  dsimp only at h ⊢
  split at h
  · next hreal =>
      rw [if_pos hreal]
      dsimp only
      by_cases hpoint : 0 < fraction (s.drop (digitRun s))
      · obtain ⟨t, ht⟩ := exists_of_fraction_pos hpoint
        exact ⟨'.', t, ht, rfl, by omega⟩
      · have hnone : fraction (s.drop (digitRun s)) = 0 := Nat.eq_zero_of_not_pos hpoint
        rw [hnone, List.drop_zero] at hreal ⊢
        unfold realTail
        dsimp only
        by_cases hexponent : 0 < exponent (s.drop (digitRun s))
        · obtain ⟨c, t, ht, hc⟩ := exists_of_exponent_pos hexponent
          refine ⟨c, t, ht, ?_, by omega⟩
          obtain rfl | rfl := hc <;> rfl
        · have hsuffix := (hreal.resolve_left (Nat.lt_irrefl 0)).resolve_left hexponent
          obtain ⟨c, t, ht, hc⟩ := exists_of_optional_pos hsuffix
          have hzero : exponent (s.drop (digitRun s)) = 0 := Nat.eq_zero_of_not_pos hexponent
          refine ⟨c, t, ht, isDecimalPart_of_isRealSuffix hc, ?_⟩
          rw [hzero, List.drop_zero]
          omega
  · cases h

theorem exists_of_hexTail? {m : ℕ} (h : hexTail? s = some m) :
    ∃ x t, s = x :: t ∧ (x = 'x' ∨ x = 'X') ∧ 0 < m := by
  unfold hexTail? at h
  split at h
  · next x d t =>
      split at h
      · next hx =>
          simp only [Bool.and_eq_true, Bool.or_eq_true, beq_iff_eq] at hx
          cases h
          exact ⟨x, _, rfl, hx.1, by omega⟩
      · cases h
  · cases h

/-- A number is hexadecimal, or it is a decimal one. -/
theorem number_cases (c : Char) (s : List Char) :
    (∃ m, hexTail? s = some m ∧ number c s = (.hexInt, m)) ∨
      (number c s = decimal s ∧ ((decimal s).1 = .decimalInt ∨ (decimal s).1 = .real)) := by
  have hdecimal : (decimal s).1 = .decimalInt ∨ (decimal s).1 = .real := by
    unfold decimal
    dsimp only
    split
    · exact .inr rfl
    · exact .inl rfl
  unfold number
  split
  · split
    · next m hm => exact .inl ⟨m, hm, rfl⟩
    · exact .inr ⟨rfl, hdecimal⟩
  · exact .inr ⟨rfl, hdecimal⟩

/-- A lexeme with the text of a decimal integer is one. -/
theorem scan_of_decimal (h : Denotes 10 digits n) (hsuffix : LongSuffix suffix long)
    (hfront : front c s = digits ++ suffix) : (scan c s).1 = .decimalInt := by
  have hparts := isDecimalPart_of_mem h hsuffix
  rw [← hfront, front] at hparts
  -- What the lexeme takes of the text has only such characters.
  have htaken {x : Char} {t : List Char} {k : ℕ} (hdrop : s.drop k = x :: t)
      (hk : k < (scan c s).2) : isDecimalPart x = true := by
    have hget : s[k]? = some x := by
      rw [← List.head?_drop, hdrop]
      rfl
    refine hparts x (List.mem_cons_of_mem _ (List.mem_of_getElem? (i := k) ?_))
    rw [List.getElem?_take_of_lt hk, hget]
  obtain ⟨d, first, t, rfl, hfirst⟩ := h.exists_cons
  obtain rfl : c = first := (List.cons.inj hfront).1
  rw [scan_digit hfirst.isDigit.1] at htaken ⊢
  obtain ⟨m, hm, hnumber⟩ | ⟨hnumber, hint | hreal⟩ := number_cases c s
  · obtain ⟨x, t, rfl, hx, hpos⟩ := exists_of_hexTail? hm
    have hpart : isDecimalPart x = true := htaken (k := 0) rfl (by rw [hnumber]; exact hpos)
    obtain rfl | rfl := hx <;> cases hpart
  · rw [hnumber, hint]
  · obtain ⟨x, t, hdrop, hx, hlt⟩ := exists_of_decimal_real hreal
    rw [← hnumber] at hlt
    cases hx.symm.trans (htaken hdrop hlt)

/-- A lexeme with the text of a hexadecimal integer is one. -/
theorem scan_of_hex (hx : x = 'x' ∨ x = 'X') (h : Denotes 16 digits n)
    (hfront : front c s = '0' :: x :: digits ++ suffix) : (scan c s).1 = .hexInt := by
  obtain ⟨d, first, t, rfl, hfirst⟩ := h.exists_cons
  obtain ⟨rfl, htake⟩ := List.cons.inj hfront
  obtain ⟨rest, rfl⟩ : ∃ rest, s = x :: first :: rest := by
    have hs := List.take_append_drop (scan '0' s).2 s
    rw [htake] at hs
    exact ⟨_, hs.symm⟩
  have hhex : ((x == 'x' || x == 'X') && isHexDigit first) = true := by
    rw [hfirst.isHexDigit.1]
    simpa using hx
  rw [scan_digit rfl, number, if_pos rfl, hexTail?, if_pos hhex]

/-- A run of digits with a suffix behind it takes the whole text. -/
theorem runLength_suffix {p : Char → Bool} (hs : ∀ c ∈ s, p c = true)
    (hsuffix : LongSuffix suffix long) (hlower : p 'l' = false) (hupper : p 'L' = false) :
    runLength p (s ++ suffix) + optional isLongSuffix ((s ++ suffix).drop
      (runLength p (s ++ suffix))) = s.length + suffix.length := by
  have hrun : runLength p (s ++ suffix) = s.length := by
    unfold runLength
    rw [List.takeWhile_append_of_pos hs]
    cases hsuffix <;> simp [hlower, hupper]
  rw [hrun, List.drop_left]
  cases hsuffix <;> rfl

/-- The text of an integer literal is a lexeme. -/
theorem exists_front_of_integerText (h : IntegerText text n long) :
    ∃ c s, text = c :: s ∧ front c s = text := by
  suffices hscan : ∃ c s, text = c :: s ∧ (scan c s).2 = s.length by
    obtain ⟨c, s, rfl, hlength⟩ := hscan
    exact ⟨c, s, rfl, by rw [front, hlength, List.take_length]⟩
  cases h with
  | @decimal digits suffix _ _ hdigits hsuffix =>
      have hparts := isDecimalPart_of_mem hdigits hsuffix
      have hmem := hdigits.mem
      obtain ⟨d, first, t, rfl, hfirst⟩ := hdigits.exists_cons
      refine ⟨first, t ++ suffix, rfl, ?_⟩
      have hparts : ∀ c ∈ t ++ suffix, isDecimalPart c = true :=
        fun c hc => hparts c (List.mem_cons_of_mem _ hc)
      rw [scan_digit hfirst.isDigit.1]
      obtain ⟨m, hm, -⟩ | ⟨hnumber, hint | hreal⟩ := number_cases first (t ++ suffix)
      · obtain ⟨x, u, hu, hx, -⟩ := exists_of_hexTail? hm
        have hpart := hparts x (hu ▸ List.mem_cons_self)
        obtain rfl | rfl := hx <;> cases hpart
      · rw [hnumber]
        unfold decimal at hint ⊢
        dsimp only at hint ⊢
        split at hint
        · cases hint
        · next hplain =>
            rw [if_neg hplain]
            have hrow : ∀ c ∈ t, (c.isDigit || c == '_') = true := by
              intro c hc
              obtain rfl | ⟨d, hd⟩ := hmem c (List.mem_cons_of_mem _ hc)
              · rfl
              · rw [hd.isDigit.1, Bool.true_or]
            exact (runLength_suffix hrow hsuffix rfl rfl).trans List.length_append.symm
      · obtain ⟨x, u, hu, hx, -⟩ := exists_of_decimal_real hreal
        have hpart := hparts x (List.mem_of_mem_drop (hu ▸ List.mem_cons_self))
        cases hx.symm.trans hpart
  | @hex x digits suffix _ _ hx hdigits hsuffix =>
      have hmem := hdigits.mem
      obtain ⟨d, first, t, rfl, hfirst⟩ := hdigits.exists_cons
      refine ⟨'0', x :: first :: (t ++ suffix), rfl, ?_⟩
      have hhex : ((x == 'x' || x == 'X') && isHexDigit first) = true := by
        rw [hfirst.isHexDigit.1]
        simpa using hx
      have hrow : ∀ c ∈ t, (isHexDigit c || c == '_') = true := by
        intro c hc
        obtain rfl | ⟨d, hd⟩ := hmem c (List.mem_cons_of_mem _ hc)
        · rfl
        · rw [hd.isHexDigit.1, Bool.true_or]
      have hlength := runLength_suffix hrow hsuffix rfl rfl
      rw [scan_digit rfl, number, if_pos rfl, hexTail?, if_pos hhex]
      dsimp only
      simp only [List.length_cons, List.length_append]
      omega

/-- What a lexeme with the text of an integer literal contributes. -/
theorem evaluate_of_integerText (h : IntegerText text n long) (hfront : front c s = text)
    (span : Span) : evaluate (scan c s).1 text span = (intToken n long span).map some id := by
  cases h with
  | decimal hdigits hsuffix =>
      rw [scan_of_decimal hdigits hsuffix hfront, evaluate, decimalToken_eq hdigits hsuffix]
  | hex hx hdigits hsuffix =>
      rw [scan_of_hex hx hdigits hfront, evaluate, hexToken_eq hx hdigits hsuffix]

end Lexeme

/-! ### Wherever the text stands -/

/-- The value of the token with the text of an integer literal, or the report about it. -/
def ReadsInteger (out : Lexed) (token : Token) (n : ℕ) (long : Bool) : Prop :=
  (n < 2 ^ 64 → token.kind = .int n long) ∧
    (2 ^ 64 ≤ n → LexError.tooLarge.diagnostic token.span ∈ out.diagnostics)

theorem IntegerText.ne_nil (h : IntegerText text n long) : text ≠ [] := by
  cases h with
  | decimal hdigits _ => exact List.append_ne_nil_of_left_ne_nil hdigits.ne_nil _
  | hex _ _ _ => exact List.cons_ne_nil _ _

theorem readsInteger_intToken {out : Lexed} {token : Token}
    (hkind : token.kind = (Lexeme.intToken n long token.span).1)
    (h : ∀ d ∈ (Lexeme.intToken n long token.span).2, d ∈ out.diagnostics) :
    ReadsInteger out token n long := by
  have hlimit : Lexeme.intLimit = 2 ^ 64 := rfl
  unfold Lexeme.intToken at hkind h
  rw [hlimit] at hkind h
  split at h
  · next hlt =>
      rw [if_pos hlt] at hkind
      exact ⟨fun _ => hkind, fun hle => absurd hlt (Nat.not_lt.2 hle)⟩
  · next hlt => exact ⟨fun hlt' => absurd hlt' hlt, fun _ => h _ List.mem_cons_self⟩

/-- The text of an integer literal is one token. -/
theorem lexFrom_integerText (h : IntegerText text n long) (offset : ℕ) :
    lexFrom offset text =
      ⟨[⟨(Lexeme.intToken n long ⟨offset, offset + byteLength text⟩).1,
          ⟨offset, offset + byteLength text⟩⟩, ⟨.eof, .point (offset + byteLength text)⟩],
        (Lexeme.intToken n long ⟨offset, offset + byteLength text⟩).2⟩ := by
  obtain ⟨c, s, rfl, hfront⟩ := Lexeme.exists_front_of_integerText h
  exact lexFrom_whole hfront offset (Lexeme.evaluate_of_integerText h hfront _)

/-- A token that holds the text of an integer literal is read as one. -/
theorem readsInteger_lex {source : List Char} {token : Token} (h : IntegerText text n long)
    (htoken : token ∈ (lex source).tokens) (hholds : token.span.Holds 0 source text) :
    ReadsInteger (lex source) token n long := by
  obtain ⟨-, hnone⟩ | ⟨c, s, errors, hfront, hlexeme, herrors⟩ :=
    exists_lexeme_of_mem_lexFrom htoken
  · exact absurd (hholds.unique hnone) h.ne_nil
  · obtain rfl := hholds.unique hfront
    rw [Lexeme.evaluate_of_integerText h rfl] at hlexeme
    obtain ⟨hkind, rfl⟩ := Prod.mk.inj hlexeme
    exact readsInteger_intToken (Option.some.inj hkind).symm herrors

end

end Scriptlet
