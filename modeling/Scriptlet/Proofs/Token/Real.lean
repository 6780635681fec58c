import Scriptlet.Proofs.Token.Integer
import Scriptlet.Proofs.Value.RoundTrip

namespace Scriptlet

/-!
# Real literals

The texts of real literals. Without underscores and suffix such a text is a numeral, and the value
of its token is what reading the numeral as a `double` gives.
-/

open Text (Span byteLength IsSolid)

/-- A row of digits. Underscores may stand behind the first digit. -/
inductive DigitRow : List Char → Prop
  | row {c : Char} {s : List Char} (hc : c.isDigit = true)
      (hs : ∀ x ∈ s, x.isDigit = true ∨ x = '_') : DigitRow (c :: s)

/-- The exponent of a real literal, if it has one. -/
inductive ExponentText : List Char → Prop
  | absent : ExponentText []
  | present {e : Char} {sign digits : List Char} (he : e = 'e' ∨ e = 'E')
      (hsign : sign = [] ∨ sign = ['+'] ∨ sign = ['-']) (hne : digits ≠ [])
      (hdigits : ∀ c ∈ digits, c.isDigit = true) : ExponentText (e :: (sign ++ digits))

/-- A real literal in front of its suffix. -/
inductive RealBody : List Char → Prop
  | whole {w e : List Char} (hw : DigitRow w) (he : ExponentText e) : RealBody (w ++ e)
  | pointed {w f e : List Char} (hw : w = [] ∨ DigitRow w) (hf : DigitRow f)
      (he : ExponentText e) : RealBody (w ++ '.' :: f ++ e)

/-- What may stand behind a real literal, and whether it asks for a `float`. -/
inductive RealSuffix : List Char → Bool → Prop
  | absent : RealSuffix [] false
  | double {c : Char} (hc : c = 'd' ∨ c = 'D') : RealSuffix [c] false
  | single {c : Char} (hc : c = 'f' ∨ c = 'F') : RealSuffix [c] true

/-- The text of a real literal, its digits without underscores and suffix, and whether it is marked
as `float`. Without point, exponent and suffix it would be an integer. -/
inductive RealText : List Char → List Char → Bool → Prop
  | text {body suffix : List Char} {single : Bool} (hbody : RealBody body)
      (hsuffix : RealSuffix suffix single) (hreal : DigitRow body → suffix ≠ []) :
      RealText (body ++ suffix) (Lexeme.withoutUnderscores body) single

section

variable {c : Char} {s t text body suffix digits w f e : List Char} {single : Bool}

theorem DigitRow.mem (h : DigitRow w) : ∀ c ∈ w, c.isDigit = true ∨ c = '_' := by
  cases h with
  | row hc hs =>
      intro c hmem
      obtain rfl | hmem := List.mem_cons.1 hmem
      · exact .inl hc
      · exact hs c hmem

/-- What has a point is no row of digits. -/
theorem not_digitRow_pointed (h : '.' ∈ body) : ¬DigitRow body := by
  intro hrow
  obtain hdigit | heq := hrow.mem _ h
  · cases hdigit
  · exact absurd heq (by decide)

theorem ExponentText.eq_nil_of_digitRow (h : ExponentText e) (hrow : DigitRow (w ++ e)) :
    e = [] := by
  cases h with
  | absent => rfl
  | present he _ _ _ =>
      obtain hdigit | heq := hrow.mem _ (List.mem_append_right _ List.mem_cons_self)
      · obtain rfl | rfl := he <;> cases hdigit
      · obtain rfl | rfl := he <;> exact absurd heq (by decide)

/-! ### The lexeme -/

namespace Lexeme

theorem digitRow_digitRun (hc : c.isDigit = true) (s : List Char) :
    DigitRow (c :: s.take (digitRun s)) := by
  refine .row hc fun x hx => ?_
  rw [digitRun, take_runLength] at hx
  simpa using List.mem_takeWhile_imp hx

theorem take_fraction (h : 0 < fraction s) :
    ∃ f, s.take (fraction s) = '.' :: f ∧ DigitRow f := by
  unfold fraction at h ⊢
  split at h
  · next d t =>
      split at h
      · next hd =>
          rw [if_pos hd, Nat.add_comm]
          exact ⟨_, rfl, digitRow_digitRun hd t⟩
      · cases h
  · cases h

theorem take_optional (p : Char → Bool) (s : List Char) :
    s.take (optional p s) = [] ∨ ∃ c, s.take (optional p s) = [c] ∧ p c = true := by
  unfold optional
  split
  · next c s =>
      split
      · next hc => exact .inr ⟨c, rfl, hc⟩
      · exact .inl rfl
  · exact .inl rfl

theorem exponentText_take (s : List Char) : ExponentText (s.take (exponent s)) := by
  unfold exponent
  split
  · next e s =>
      dsimp only
      split
      · next he =>
          split
          · exact .absent
          · next hpos =>
              rw [Nat.add_assoc, Nat.add_comm 1, List.take_succ_cons, List.take_add, take_runLength]
              refine .present (by simpa using he) ?_ ?_ fun c hc => List.mem_takeWhile_imp hc
              · obtain hnone | ⟨c, hsign, hc⟩ := take_optional (fun c => c == '+' || c == '-') s
                · exact .inl hnone
                · simp only [Bool.or_eq_true, beq_iff_eq] at hc
                  obtain rfl | rfl := hc
                  · exact .inr (.inl hsign)
                  · exact .inr (.inr hsign)
              · exact fun hnil => hpos (congrArg List.length hnil)
      · exact .absent
  · exact .absent

theorem take_realTail (s : List Char) :
    ∃ e suffix, s.take (realTail s) = e ++ suffix ∧ ExponentText e ∧
      (suffix = [] ∨ ∃ c, suffix = [c] ∧ isRealSuffix c = true) :=
  ⟨_, _, List.take_add, exponentText_take s, take_optional isRealSuffix _⟩

theorem take_realTail_ne_nil (h : 0 < exponent s ∨ 0 < optional isRealSuffix s) :
    s.take (realTail s) ≠ [] := by
  intro hnil
  obtain hzero | rfl := List.take_eq_nil_iff.1 hnil
  · unfold realTail at hzero
    dsimp only at hzero
    have hexponent : exponent s = 0 := by omega
    rw [hexponent, List.drop_zero] at hzero
    omega
  · obtain h | h := h <;> cases h

/-- A real literal begins with a digit or with a point and a digit. -/
theorem scan_of_real (h : (scan c s).1 = .real) :
    (c.isDigit = true ∧ scan c s = decimal s) ∨
      (0 < fraction (c :: s) ∧ scan c s =
        (.real, fraction (c :: s) - 1 + realTail ((c :: s).drop (fraction (c :: s))))) := by
  have hscanned := scanned c s
  generalize scan c s = lexeme at hscanned h
  cases hscanned with
  | number _ hdigit =>
      obtain ⟨m, -, hnumber⟩ | ⟨hnumber, -⟩ := number_cases c s
      · rw [hnumber] at h
        cases h
      · exact .inl ⟨hdigit, hnumber⟩
  | point _ hpoint => exact .inr ⟨hpoint, rfl⟩
  | _ => cases h

theorem front_of_real (h : (scan c s).1 = .real) :
    ∃ body suffix, front c s = body ++ suffix ∧ RealBody body ∧
      (suffix = [] ∨ ∃ c, suffix = [c] ∧ isRealSuffix c = true) ∧
      (DigitRow body → suffix ≠ []) := by
  obtain ⟨hdigit, hscan⟩ | ⟨hpoint, hscan⟩ := scan_of_real h
  · rw [hscan] at h
    unfold front
    rw [hscan]
    unfold decimal at h ⊢
    dsimp only at h ⊢
    split at h
    · next hparts =>
        have hrow := digitRow_digitRun hdigit s
        rw [if_pos hparts, List.take_add, List.take_add, ← List.drop_drop]
        generalize s.drop (digitRun s) = t at hparts ⊢
        obtain ⟨e, suffix, htail, he, hsuffix⟩ := take_realTail (t.drop (fraction t))
        obtain hnone | hpoint := Nat.eq_zero_or_pos (fraction t)
        · have htaken := take_realTail_ne_nil (hparts.resolve_left (Nat.not_lt.2 hnone.le))
          rw [htail] at htaken ⊢
          rw [hnone, List.take_zero, List.append_nil, ← List.append_assoc, ← List.cons_append,
            ← List.cons_append]
          refine ⟨_, suffix, rfl, .whole hrow he, hsuffix, fun hdigits hnil => htaken ?_⟩
          rw [he.eq_nil_of_digitRow hdigits, hnil]
          rfl
        · obtain ⟨f, hfraction, hf⟩ := take_fraction hpoint
          rw [htail, hfraction, ← List.append_assoc, ← List.cons_append, ← List.cons_append,
            ← List.cons_append]
          exact ⟨_, suffix, rfl, .pointed (.inr hrow) hf he, hsuffix,
            fun hdigits => absurd hdigits (not_digitRow_pointed (by simp))⟩
    · cases h
  · obtain ⟨f, hfraction, hf⟩ := take_fraction hpoint
    obtain ⟨e, suffix, htail, he, hsuffix⟩ :=
      take_realTail ((c :: s).drop (fraction (c :: s)))
    have hfront : front c s = (c :: s).take
        (fraction (c :: s) + realTail ((c :: s).drop (fraction (c :: s)))) := by
      obtain ⟨k, hk⟩ := Nat.exists_eq_add_one_of_ne_zero hpoint.ne'
      rw [front, hscan, hk, Nat.add_right_comm, List.take_succ_cons, Nat.add_sub_cancel]
    rw [hfront, List.take_add, hfraction, htail, ← List.append_assoc]
    exact ⟨_, suffix, rfl, .pointed (.inl rfl) hf he, hsuffix,
      fun hdigits => absurd hdigits (not_digitRow_pointed (by simp))⟩

end Lexeme

/-! ### The suffix -/

open Lexeme (isRealSuffix)

theorem DigitRow.of_all (hne : w ≠ []) (h : w.all Char.isDigit = true) : DigitRow w := by
  obtain ⟨c, s, rfl⟩ := List.exists_cons_of_ne_nil hne
  rw [List.all_cons, Bool.and_eq_true] at h
  exact .row h.1 fun x hx => .inl (List.all_eq_true.1 h.2 x hx)

theorem isRealSuffix_digit (hc : c.isDigit = true) : isRealSuffix c = false := by
  by_contra h
  rw [Bool.not_eq_false] at h
  have hpart := Lexeme.isDecimalPart_of_isRealSuffix h
  rw [Lexeme.isDecimalPart, hc, Bool.or_true, Bool.true_or] at hpart
  cases hpart

theorem DigitRow.not_isRealSuffix (h : DigitRow w) : ∀ c ∈ w, isRealSuffix c = false := by
  intro c hc
  obtain hdigit | rfl := h.mem c hc
  · exact isRealSuffix_digit hdigit
  · rfl

theorem ExponentText.mem (h : ExponentText e) :
    ∀ c ∈ e, c.isDigit = true ∨ c = 'e' ∨ c = 'E' ∨ c = '+' ∨ c = '-' := by
  cases h with
  | absent => exact List.forall_mem_nil _
  | present he hsign _ hdigits =>
      refine List.forall_mem_cons.2 ⟨.inr ?_, List.forall_mem_append.2
        ⟨fun c hc => .inr ?_, fun c hc => .inl (hdigits c hc)⟩⟩
      · exact he.imp_right .inl
      · obtain rfl | rfl | rfl := hsign
        · cases hc
        · exact .inr (.inr (.inl (List.mem_singleton.1 hc)))
        · exact .inr (.inr (.inr (List.mem_singleton.1 hc)))

theorem ExponentText.not_isRealSuffix (h : ExponentText e) : ∀ c ∈ e, isRealSuffix c = false := by
  intro c hc
  obtain hdigit | rfl | rfl | rfl | rfl := h.mem c hc
  · exact isRealSuffix_digit hdigit
  all_goals rfl

theorem RealBody.not_isRealSuffix (h : RealBody body) : ∀ c ∈ body, isRealSuffix c = false := by
  cases h with
  | whole hw he => exact List.forall_mem_append.2 ⟨hw.not_isRealSuffix, he.not_isRealSuffix⟩
  | pointed hw hf he =>
      refine List.forall_mem_append.2 ⟨List.forall_mem_append.2 ⟨?_, ?_⟩, he.not_isRealSuffix⟩
      · obtain rfl | hw := hw
        · exact List.forall_mem_nil _
        · exact hw.not_isRealSuffix
      · exact List.forall_mem_cons.2 ⟨rfl, hf.not_isRealSuffix⟩

theorem exists_realSuffix (h : suffix = [] ∨ ∃ c, suffix = [c] ∧ isRealSuffix c = true) :
    ∃ single, RealSuffix suffix single := by
  obtain rfl | ⟨c, rfl, hc⟩ := h
  · exact ⟨false, .absent⟩
  · simp only [isRealSuffix, Bool.or_eq_true, beq_iff_eq] at hc
    obtain ((rfl | rfl) | rfl) | rfl := hc
    · exact ⟨true, .single (.inl rfl)⟩
    · exact ⟨true, .single (.inr rfl)⟩
    · exact ⟨false, .double (.inl rfl)⟩
    · exact ⟨false, .double (.inr rfl)⟩

namespace Lexeme

theorem realToken_append (hbody : RealBody body) (hsuffix : RealSuffix suffix single) :
    realToken (body ++ suffix) = .real (realValue (withoutUnderscores body)) single := by
  have hplain := hbody.not_isRealSuffix
  simp only [isRealSuffix, Bool.or_eq_false_iff] at hplain
  have hunmarked : dropSuffix (fun c => c == 'f' || c == 'F') body = (body, false) := by
    refine dropSuffix_of_forall fun c hc => ?_
    rw [(hplain c hc).1.1.1, (hplain c hc).1.1.2]
    rfl
  have hbare (single : Bool) :
      dropSuffix (fun c => !single && (c == 'd' || c == 'D')) body = (body, false) := by
    refine dropSuffix_of_forall fun c hc => ?_
    rw [(hplain c hc).1.2, (hplain c hc).2]
    exact Bool.and_false _
  unfold realToken
  cases hsuffix with
  | absent => simp only [List.append_nil, hunmarked, hbare]
  | double hc => obtain rfl | rfl := hc <;> simp [dropSuffix_concat]
  | @single c hc =>
      have hmarked : dropSuffix (fun c => c == 'f' || c == 'F') (body ++ [c]) = (body, true) := by
        rw [dropSuffix_concat]
        obtain rfl | rfl := hc <;> rfl
      simp only [hmarked, hbare]

/-- No other lexeme is a real token. -/
theorem eq_real_of_evaluate {p : Pattern} {x : Float} {span : Span} {errors : List Diagnostic}
    (h : evaluate p text span = (some (.real x single), errors)) :
    p = .real ∧ realToken text = .real x single := by
  have hint {value : ℕ} {long : Bool} :
      (intToken value long span).map some id ≠ (some (.real x single), errors) := by
    unfold intToken
    split <;> simp
  cases p with
  | real => exact ⟨rfl, Option.some.inj (Prod.mk.inj h).1⟩
  | decimalInt | hexInt => exact absurd h hint
  | blank => simp [evaluate] at h
  | comment closed => cases closed <;> simp [evaluate] at h
  | string closed => cases closed <;> simp [evaluate, stringToken] at h
  | char closed =>
      unfold evaluate charToken at h
      dsimp only at h
      repeat' split at h
      all_goals simp at h
  | word =>
      unfold evaluate wordToken at h
      dsimp only at h
      split at h <;> simp at h
  | mark _ | unexpected => simp [evaluate] at h

end Lexeme

/-! ### The numeral -/

theorem DigitRow.withoutUnderscores (h : DigitRow w) :
    Lexeme.withoutUnderscores w ≠ [] ∧ ∀ c ∈ Lexeme.withoutUnderscores w, c.isDigit = true := by
  have hmem := h.mem
  cases h with
  | @row c s hc _ =>
      have hne : c ≠ '_' := ne_of_isDigit hc (by decide)
      refine ⟨List.ne_nil_of_mem (a := c) ?_, fun x hx => ?_⟩
      · simp [Lexeme.withoutUnderscores, hne]
      · obtain ⟨hx, hplain⟩ := List.mem_filter.1 hx
        exact (hmem x hx).resolve_right (by simpa using hplain)

theorem ExponentText.withoutUnderscores (h : ExponentText e) : Lexeme.withoutUnderscores e = e := by
  refine List.filter_eq_self.2 fun c hc => ?_
  obtain hdigit | rfl | rfl | rfl | rfl := h.mem c hc
  · simpa using ne_of_isDigit hdigit (show '_'.isDigit = false by decide)
  all_goals rfl

/-- The digits in front of and behind the point of a numeral, and its exponent. -/
structure NumeralParts (w f e : List Char) : Prop where
  whole : ∀ c ∈ w, c.isDigit = true
  fraction : ∀ c ∈ f, c.isDigit = true
  ne_nil : w ++ f ≠ []
  exponent : ExponentText e

theorem RealBody.exists_parts (h : RealBody body) : ∃ w f e,
    Lexeme.withoutUnderscores body = w ++ Numeral.pointed f ++ e ∧ NumeralParts w f e := by
  have happend (s t : List Char) : Lexeme.withoutUnderscores (s ++ t) =
      Lexeme.withoutUnderscores s ++ Lexeme.withoutUnderscores t := List.filter_append s t
  cases h with
  | @whole w e hw he =>
      obtain ⟨hne, hdigits⟩ := hw.withoutUnderscores
      refine ⟨Lexeme.withoutUnderscores w, [], e, ?_, hdigits, List.forall_mem_nil _, ?_, he⟩
      · rw [happend, he.withoutUnderscores, Numeral.pointed, List.append_nil]
      · rwa [List.append_nil]
  | @pointed w f e hw hf he =>
      obtain ⟨hne, hdigits⟩ := hf.withoutUnderscores
      refine ⟨Lexeme.withoutUnderscores w, Lexeme.withoutUnderscores f, e, ?_, ?_, hdigits,
        List.append_ne_nil_of_right_ne_nil _ hne, he⟩
      · rw [happend, happend, he.withoutUnderscores, Numeral.pointed_of_ne_nil hne]
        rfl
      · obtain rfl | hw := hw
        · exact List.forall_mem_nil _
        · exact hw.withoutUnderscores.2

theorem ExponentText.exists_readExponent (h : ExponentText e) :
    ∃ k, Numeral.readExponent e = some k := by
  cases h with
  | absent => exact ⟨0, rfl⟩
  | @present e sign digits he hsign hne hdigits =>
      have hread : Numeral.readExponent.readDigits digits =
          some (Numeral.exponentValue digits) :=
        if_pos ⟨hne, List.all_eq_true.2 hdigits⟩
      obtain ⟨d, ds, rfl⟩ := List.exists_cons_of_ne_nil hne
      have hsigned : (readSign (sign ++ d :: ds)).2 = d :: ds := by
        obtain rfl | rfl | rfl := hsign
        · rw [List.nil_append, readSign_digit (hdigits d List.mem_cons_self)]
        · rfl
        · rfl
      rw [Numeral.readExponent_cons, if_pos he, hsigned, hread]
      exact ⟨_, rfl⟩

namespace NumeralParts

theorem exists_read? (h : NumeralParts w f e) :
    ∃ n, Numeral.read? (w ++ Numeral.pointed f ++ e) = some n := by
  obtain ⟨k, hk⟩ := h.exponent.exists_readExponent
  have hend : ∀ c ∈ e.head?, c.isDigit = false ∧ c ≠ '.' := by
    intro c hc
    cases h.exponent with
    | absent => cases hc
    | present he _ _ _ =>
        obtain rfl := Option.some.inj hc
        obtain rfl | rfl := he <;> decide
  have hmantissa := Numeral.readMantissa_parts h.whole h.fraction hend
  unfold Numeral.read?
  simp only [hmantissa, if_neg h.ne_nil, hk, Option.map_some]
  exact ⟨_, rfl⟩

/-- A numeral has no blanks. -/
theorem isSolid (h : NumeralParts w f e) : IsSolid (w ++ Numeral.pointed f ++ e) := by
  have hfraction := Text.isSolid_digits h.fraction
  refine Text.isSolid_append (Text.isSolid_append (Text.isSolid_digits h.whole) ?_) fun c hc => ?_
  · cases f with
    | nil => exact Text.isSolid_nil
    | cons c f => exact Text.isSolid_cons (by decide) hfraction
  · obtain hdigit | rfl | rfl | rfl | rfl := h.exponent.mem c hc
    · exact Text.isBlank_digit hdigit
    all_goals decide

/-- A numeral begins with a digit or a point. -/
theorem exists_head (h : NumeralParts w f e) : ∃ c t, w ++ Numeral.pointed f ++ e = c :: t ∧
    (c.isDigit = true ∨ c = '.') := by
  cases w with
  | cons c w => exact ⟨c, _, rfl, .inl (h.whole c List.mem_cons_self)⟩
  | nil =>
      have hne : f ≠ [] := h.ne_nil
      rw [List.nil_append, Numeral.pointed_of_ne_nil hne]
      exact ⟨'.', _, rfl, .inr rfl⟩

/-- A numeral is read as a number of either format. -/
theorem readReal_eq (h : NumeralParts w f e) : ∃ n,
    Numeral.read? (w ++ Numeral.pointed f ++ e) = some n ∧
      ∀ g, readReal g (w ++ Numeral.pointed f ++ e) = .ok (n.toDatum g false) := by
  obtain ⟨n, hread⟩ := h.exists_read?
  obtain ⟨c, t, htext, hc⟩ := h.exists_head
  have hinfinity : sameLetters (c :: t) "infinity".toList = false :=
    sameLetters_numeral (a := 'i') hc (by decide) (by decide) _ _
  have hnan : sameLetters (c :: t) "nan".toList = false :=
    sameLetters_numeral (a := 'n') hc (by decide) (by decide) _ _
  refine ⟨n, hread, fun g => ?_⟩
  rw [htext] at hread
  rw [readReal, Text.trim_of_isSolid h.isSolid, htext, readNumber]
  simp only [readSign_numeral hc, hinfinity, hnan, hread, Bool.false_eq_true, if_false,
    Option.map_some]

end NumeralParts

end

/-! ### Wherever the text stands -/

/-- A real token has the text of a real literal. Its digits are a numeral, and its value is the
number of double precision nearest to that. -/
theorem exists_realText_of_mem_lex {source : List Char} {token : Token} {x : Float} {single : Bool}
    (htoken : token ∈ (lex source).tokens) (hkind : token.kind = .real x single) :
    ∃ text digits n, token.span.Holds 0 source text ∧ RealText text digits single ∧
      Numeral.read? digits = some n ∧ x = Binary.toFloat (n.toDatum Binary.double false) ∧
      ∀ f, readReal f digits = .ok (n.toDatum f false) := by
  obtain ⟨hend, -⟩ | ⟨c, s, errors, hholds, hlexeme, -⟩ := exists_lexeme_of_mem_lexFrom htoken
  · cases hkind.symm.trans hend
  · rw [hkind] at hlexeme
    obtain ⟨hpattern, hreal⟩ := Lexeme.eq_real_of_evaluate hlexeme
    obtain ⟨body, suffix, hfront, hbody, hsuffix, hpart⟩ := Lexeme.front_of_real hpattern
    obtain ⟨single', hsuffix⟩ := exists_realSuffix hsuffix
    rw [hfront] at hholds hreal
    rw [Lexeme.realToken_append hbody hsuffix] at hreal
    obtain ⟨hx, rfl⟩ := TokenKind.real.inj hreal
    obtain ⟨w, f, e, hdigits, hparts⟩ := hbody.exists_parts
    obtain ⟨n, hread, hvalue⟩ := hparts.readReal_eq
    rw [← hdigits] at hread hvalue
    refine ⟨_, _, n, hholds, .text hbody hsuffix hpart, hread, ?_, hvalue⟩
    rw [← hx, Lexeme.realValue, hread]

end Scriptlet
