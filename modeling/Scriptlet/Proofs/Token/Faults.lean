import Scriptlet.Proofs.Text.Extent

namespace Scriptlet

/-!
# Where lexing finds faults

Every fault of a lexeme is reported at the lexeme, but for a bad escape sequence, which is reported
where it stands in its literal.
-/

open Text (Span byteLength)

/-! ### Bad escape sequences -/

namespace Text

section

variable {c : Char} {s a : List Char}

theorem utf8Size_eq_one_of_le {m : Char} (hm : m.val ≤ 127) (h : c ≤ m) : c.utf8Size = 1 :=
  Char.utf8Size_eq_one_iff.2 (UInt32.le_trans (Char.le_def.1 h) hm)

theorem utf8Size_of_hexDigit? {n : Nat} (h : hexDigit? c = some n) : c.utf8Size = 1 := by
  unfold hexDigit? at h
  split at h
  · next hc => exact utf8Size_eq_one_of_le (by decide) hc.2
  · split at h
    · next hc => exact utf8Size_eq_one_of_le (by decide) hc.2
    · split at h
      · next hc => exact utf8Size_eq_one_of_le (by decide) hc.2
      · cases h

theorem utf8Size_of_hexValue? {n : Nat} (h : hexValue? s = some n) :
    ∀ c ∈ s, c.utf8Size = 1 := by
  unfold hexValue? at h
  generalize 0 = m at h
  induction s generalizing m with
  | nil => exact fun c hc => absurd hc List.not_mem_nil
  | cons c s ih =>
      rw [List.foldlM_cons] at h
      obtain ⟨k, hk, h⟩ := Option.bind_eq_some_iff.1 h
      obtain ⟨digit, hdigit, -⟩ := Option.map_eq_some_iff.1 hk
      exact List.forall_mem_cons.2 ⟨utf8Size_of_hexDigit? hdigit, ih k h⟩

theorem byteLength_of_codeChar? {a b c d x : Char} (h : codeChar? a b c d = some x) :
    byteLength [a, b, c, d] = 4 := by
  unfold codeChar? at h
  obtain ⟨n, hn, -⟩ := Option.bind_eq_some_iff.1 h
  have hsizes := utf8Size_of_hexValue? hn
  simp only [byteLength_cons, byteLength_nil]
  split at hsizes
  · next ha =>
      subst ha
      have hplus : '+'.utf8Size = 1 := by decide
      rw [hplus, hsizes b (by simp), hsizes c (by simp), hsizes d (by simp)]
  · rw [hsizes a (by simp), hsizes b (by simp), hsizes c (by simp), hsizes d (by simp)]

theorem utf8Size_of_escapedChar? {x : Char} (h : escapedChar? c = some x) : c.utf8Size = 1 := by
  unfold escapedChar? at h
  split at h
  · decide
  · decide
  · decide
  · decide
  · decide
  · decide
  · decide
  · cases h

theorem frontOfBytes?_eq_some_iff {n : Nat} :
    frontOfBytes? n s = some a ↔ (∃ b, s = a ++ b) ∧ byteLength a = n := by
  induction n, s using frontOfBytes?.induct generalizing a with
  | case1 s =>
      rw [frontOfBytes?]
      constructor
      · rintro ⟨⟩
        exact ⟨⟨s, rfl⟩, rfl⟩
      · rintro ⟨-, ha⟩
        cases a with
        | nil => rfl
        | cons c a =>
            have hpos := byteLength_pos (List.cons_ne_nil c a)
            omega
  | case2 n =>
      rw [frontOfBytes?]
      constructor
      · rintro ⟨⟩
      · rintro ⟨⟨b, hb⟩, ha⟩
        rw [(List.append_eq_nil_iff.1 hb.symm).1, byteLength_nil] at ha
        omega
  | case3 n c s hsize ih =>
      rw [frontOfBytes?, if_pos hsize, Option.map_eq_some_iff]
      constructor
      · rintro ⟨front, hfront, rfl⟩
        obtain ⟨⟨b, rfl⟩, hlength⟩ := ih.1 hfront
        refine ⟨⟨b, rfl⟩, ?_⟩
        rw [byteLength_cons, hlength]
        omega
      · rintro ⟨⟨b, hb⟩, ha⟩
        cases a with
        | nil =>
            rw [byteLength_nil] at ha
            omega
        | cons x a =>
            obtain ⟨rfl, rfl⟩ := List.cons.inj hb
            rw [byteLength_cons] at ha
            exact ⟨a, ih.2 ⟨⟨b, rfl⟩, by omega⟩, rfl⟩
  | case4 n c s hsize =>
      rw [frontOfBytes?, if_neg hsize]
      constructor
      · rintro ⟨⟩
      · rintro ⟨⟨b, hb⟩, ha⟩
        cases a with
        | nil =>
            rw [byteLength_nil] at ha
            omega
        | cons x a =>
            obtain ⟨rfl, rfl⟩ := List.cons.inj hb
            rw [byteLength_cons] at ha
            omega

/-- A bad code takes its backslash, its letter and a front of what follows. -/
theorem exists_of_badCodeLength (s : List Char) : ∃ bad b,
    '\\' :: 'u' :: s = bad ++ b ∧ badCodeLength s = byteLength bad := by
  have hlength (a : List Char) : 2 + byteLength a = byteLength ('\\' :: 'u' :: a) := by
    have hbackslash : '\\'.utf8Size = 1 := by decide
    have hletter : 'u'.utf8Size = 1 := by decide
    rw [byteLength_cons, byteLength_cons, hbackslash, hletter]
    omega
  unfold badCodeLength
  cases hfront : frontOfBytes? 4 s with
  | none => exact ⟨'\\' :: 'u' :: s, [], (List.append_nil _).symm, hlength s⟩
  | some a =>
      obtain ⟨⟨b, rfl⟩, -⟩ := frontOfBytes?_eq_some_iff.1 hfront
      exact ⟨'\\' :: 'u' :: a, b, rfl, hlength a⟩

/-- The place of a bad escape sequence is that of a part of the text. -/
def EscapeError.Marks (e : EscapeError) (offset : Nat) (s : List Char) : Prop :=
  ∃ a bad b, s = a ++ bad ++ b ∧ e.offset = offset + byteLength a ∧ e.length = byteLength bad

theorem EscapeError.Marks.behind {e : EscapeError} {offset : Nat} {p : List Char}
    (h : e.Marks (offset + byteLength p) s) : e.Marks offset (p ++ s) := by
  obtain ⟨a, bad, b, rfl, hoffset, hlength⟩ := h
  refine ⟨p ++ a, bad, b, by simp only [List.append_assoc], ?_, hlength⟩
  rw [hoffset, byteLength_append, Nat.add_assoc]

theorem marks_of_front {e : EscapeError} {offset : Nat} (bad b : List Char) (hs : s = bad ++ b)
    (he : e = ⟨offset, byteLength bad⟩) : e.Marks offset s := by
  subst hs he
  exact ⟨[], bad, b, rfl, rfl, rfl⟩

theorem eq_error_of_map {f : List Char → List Char} {x : Except EscapeError (List Char)}
    {e : EscapeError} (h : x.map f = .error e) : x = .error e := by
  cases x with
  | error e' =>
      cases h
      rfl
  | ok s => cases h

theorem marks_of_unescapeFrom {offset : Nat} {e : EscapeError}
    (h : unescapeFrom offset s = .error e) : e.Marks offset s := by
  have hbackslash : '\\'.utf8Size = 1 := by decide
  have hletter : 'u'.utf8Size = 1 := by decide
  induction offset, s using unescapeFrom.induct with
  | case1 offset =>
      rw [unescapeFrom] at h
      cases h
  | case2 offset =>
      rw [unescapeFrom] at h
      cases h
      exact marks_of_front ['\\'] [] rfl rfl
  | case3 offset a b c d s x hx ih =>
      rw [unescapeFrom.eq_3, hx] at h
      have hfront : byteLength ['\\', 'u', a, b, c, d] = 6 := by
        have hcode := byteLength_of_codeChar? hx
        rw [byteLength_cons, byteLength_cons, hbackslash, hletter, hcode]
      refine EscapeError.Marks.behind (p := ['\\', 'u', a, b, c, d]) ?_
      rw [hfront]
      exact ih (eq_error_of_map h)
  | case4 offset a b c d s hx =>
      rw [unescapeFrom.eq_3, hx] at h
      cases h
      obtain ⟨bad, rest, hrest, hlength⟩ := exists_of_badCodeLength (a :: b :: c :: d :: s)
      exact marks_of_front bad rest hrest (by rw [hlength])
  | case5 offset s hs =>
      rw [unescapeFrom.eq_4 _ _ hs] at h
      cases h
      obtain ⟨bad, rest, hrest, hlength⟩ := exists_of_badCodeLength s
      exact marks_of_front bad rest hrest (by rw [hlength])
  | case6 offset c s hcode hu x hx ih =>
      rw [unescapeFrom.eq_5 _ _ _ hcode hu, hx] at h
      have hfront : byteLength ['\\', c] = 2 := by
        rw [byteLength_cons, byteLength_cons, hbackslash, utf8Size_of_escapedChar? hx]
        rfl
      refine EscapeError.Marks.behind (p := ['\\', c]) ?_
      rw [hfront]
      exact ih (eq_error_of_map h)
  | case7 offset c s hcode hu hx =>
      rw [unescapeFrom.eq_5 _ _ _ hcode hu, hx] at h
      cases h
      refine marks_of_front ['\\', c] s rfl ?_
      rw [byteLength_cons, byteLength_cons, hbackslash, byteLength_nil, Nat.add_zero]
  | case8 offset c s hlast hcode hu hescape ih =>
      rw [unescapeFrom.eq_6 _ _ _ hlast hcode hu hescape] at h
      refine EscapeError.Marks.behind (p := [c]) ?_
      rw [byteLength_cons, byteLength_nil, Nat.add_zero]
      exact ih (eq_error_of_map h)

end

end Text

/-! ### The faults of a lexeme -/

/-- The kinds of literals that are written between quotes. -/
def TokenKind.IsQuoted (k : TokenKind) : Prop :=
  (∃ s, k = .string s) ∨ ∃ c, k = .char c

/-- A diagnostic about a part of a text that begins at an offset; it lies in a span, and if it is
about an escape sequence, the span is that of a literal between quotes. -/
structure Diagnostic.LiesIn (d : Diagnostic) (offset : Nat) (source : List Char) (span : Span)
    (kind : Option TokenKind) : Prop where
  holds : ∃ text, d.span.Holds offset source text
  within : d.span.Within span
  quoted : d.code = ⟨5⟩ → ∃ k, kind = some k ∧ k.IsQuoted

namespace Lexeme

section

variable {offset : Nat} {source content back text : List Char} {span : Span} {q : Char}
  {d : Diagnostic} {kind : Option TokenKind} {closed : Bool}

/-- A fault that is reported at the whole lexeme. -/
theorem liesIn_diagnostic (h : span.Holds offset source text) {e : LexError}
    (he : e.code ≠ ⟨5⟩) : (e.diagnostic span).LiesIn offset source span kind :=
  ⟨⟨text, h⟩, .refl span, fun hcode => absurd hcode he⟩

theorem liesIn_literalText (h : span.Holds offset source (q :: (content ++ back)))
    (hq : q.utf8Size = 1) {k : TokenKind} (hk : k.IsQuoted)
    (hd : d ∈ (literalText content span).2) : d.LiesIn offset source span (some k) := by
  unfold literalText at hd
  split at hd
  · cases hd
  · next e he =>
      obtain ⟨a, bad, b, rfl, hoffset, hlength⟩ := Text.marks_of_unescapeFrom he
      obtain rfl := List.mem_singleton.1 hd
      have htext : q :: (a ++ bad ++ b ++ back) = (q :: a) ++ bad ++ (b ++ back) := by
        simp only [List.cons_append, List.append_assoc]
      rw [htext] at h
      have hpart := h.part (t := ⟨span.start + 1 + e.offset, span.start + 1 + e.offset + e.length⟩)
        (by rw [Text.byteLength_cons, hq, hoffset]; dsimp only; omega) (by rw [hlength])
      exact ⟨⟨bad, hpart.1⟩, hpart.2, fun _ => ⟨k, rfl, hk⟩⟩

theorem liesIn_stringToken (h : span.Holds offset source (q :: text)) (hq : q.utf8Size = 1)
    (hd : d ∈ (stringToken closed (q :: text) span).2) :
    d.LiesIn offset source span (some (stringToken closed (q :: text) span).1) := by
  have hkind : (stringToken closed (q :: text) span).1.IsQuoted := by
    unfold stringToken
    cases closed <;> exact .inl ⟨_, rfl⟩
  obtain ⟨back, hback⟩ := List.dropLast_prefix text
  cases closed with
  | true =>
      have hholds := h
      rw [← hback] at hholds
      exact liesIn_literalText hholds hq hkind hd
  | false =>
      obtain rfl | hd := List.mem_cons.1 hd
      · exact liesIn_diagnostic h (by decide)
      · have hholds := h
        rw [← List.append_nil text] at hholds
        exact liesIn_literalText hholds hq hkind hd

theorem liesIn_charToken (h : span.Holds offset source (q :: text)) (hq : q.utf8Size = 1)
    (hd : d ∈ (charToken closed (q :: text) span).2) :
    d.LiesIn offset source span (some (charToken closed (q :: text) span).1) := by
  have hkind : (charToken closed (q :: text) span).1.IsQuoted := by
    unfold charToken
    repeat' split
    all_goals exact .inr ⟨_, rfl⟩
  generalize (charToken closed (q :: text) span).1 = k at hkind ⊢
  obtain ⟨back, hback⟩ := List.dropLast_prefix text
  have hholds := h
  rw [← hback] at hholds
  unfold charToken at hd
  cases closed with
  | true =>
      rw [if_pos rfl] at hd
      dsimp only at hd
      split at hd
      · exact liesIn_literalText hholds hq hkind hd
      all_goals
        obtain hd | hd := List.mem_append.1 hd
        · exact liesIn_literalText hholds hq hkind hd
        · obtain rfl := List.mem_singleton.1 hd
          exact liesIn_diagnostic h (by decide)
  | false =>
      obtain rfl := List.mem_singleton.1 hd
      exact liesIn_diagnostic h (by decide)

end

/-- A literal between quotes begins with its quote. -/
theorem utf8Size_of_scan {c : Char} {s : List Char} {closed : Bool}
    (h : (scan c s).1 = .string closed ∨ (scan c s).1 = .char closed) : c.utf8Size = 1 := by
  have hnumber : (number c s).1 ≠ .string closed ∧ (number c s).1 ≠ .char closed := by
    rcases number_pattern c s with hp | hp | hp <;> rw [hp] <;>
      exact ⟨Pattern.noConfusion, Pattern.noConfusion⟩
  unfold scan at h
  split at h
  · rcases h with h | h <;> cases h
  split at h
  · exact (h.elim hnumber.1 hnumber.2).elim
  split at h
  · rcases h with h | h <;> cases h
  split at h
  · next hquote =>
      rw [hquote]
      decide
  split at h
  · next hquote =>
      rw [hquote]
      decide
  split at h
  · rcases h with h | h <;> cases h
  · rcases h with h | h <;> cases h
  · dsimp only at h
    split at h
    · rcases h with h | h <;> cases h
    split at h
    · rcases h with h | h <;> cases h
    · rcases h with h | h <;> cases h

theorem liesIn_intToken {offset : Nat} {source text : List Char} {span : Span} {value : Nat}
    {long : Bool} {d : Diagnostic} {kind : Option TokenKind} (h : span.Holds offset source text)
    (hd : d ∈ (intToken value long span).2) : d.LiesIn offset source span kind := by
  unfold intToken at hd
  split at hd
  · cases hd
  · obtain rfl := List.mem_singleton.1 hd
    exact liesIn_diagnostic h (by decide)

theorem liesIn_evaluate {offset : Nat} {source s : List Char} {c : Char} {span : Span}
    {d : Diagnostic} (h : span.Holds offset source (front c s))
    (hd : d ∈ (evaluate (scan c s).1 (front c s) span).2) :
    d.LiesIn offset source span (evaluate (scan c s).1 (front c s) span).1 := by
  cases hp : (scan c s).1 with
  | string closed =>
      rw [hp] at hd
      exact liesIn_stringToken h (utf8Size_of_scan (.inl hp)) hd
  | char closed =>
      rw [hp] at hd
      exact liesIn_charToken h (utf8Size_of_scan (.inr hp)) hd
  | decimalInt =>
      rw [hp] at hd
      simp only [evaluate, Prod.map_snd, id_eq, decimalToken] at hd
      exact liesIn_intToken h hd
  | hexInt =>
      rw [hp] at hd
      simp only [evaluate, Prod.map_snd, id_eq, hexToken] at hd
      exact liesIn_intToken h hd
  | comment closed =>
      rw [hp] at hd
      cases closed with
      | true => cases hd
      | false =>
          obtain rfl := List.mem_singleton.1 hd
          exact liesIn_diagnostic h (by decide)
  | unexpected =>
      rw [hp] at hd
      obtain rfl := List.mem_singleton.1 hd
      exact liesIn_diagnostic h fun hcode => by cases hcode
  | _ =>
      rw [hp] at hd
      cases hd

end Lexeme

/-- Each fault of a text is about a part of it, and one of an escape sequence lies in a literal. -/
theorem exists_of_mem_diagnostics_lexFrom {offset : Nat} {source : List Char} {d : Diagnostic}
    (hd : d ∈ (lexFrom offset source).diagnostics) :
    (∃ text, d.span.Holds offset source text) ∧ (d.code = ⟨5⟩ →
      ∃ token ∈ (lexFrom offset source).tokens, token.kind.IsQuoted ∧ d.span.Within token.span) := by
  induction offset, source using lexeme_induction with
  | nil offset =>
      rw [lexFrom_nil] at hd
      cases hd
  | cons offset c s ih =>
      have hsplit := Lexeme.front_append_rest c s
      have hholds : Span.Holds offset (c :: s)
          ⟨offset, offset + byteLength (Lexeme.front c s)⟩ (Lexeme.front c s) :=
        ⟨[], Lexeme.rest c s, hsplit.symm, rfl, rfl⟩
      have hlies (d : Diagnostic) := Lexeme.liesIn_evaluate (d := d) hholds
      rcases heval : Lexeme.evaluate (Lexeme.scan c s).1 (Lexeme.front c s)
        ⟨offset, offset + byteLength (Lexeme.front c s)⟩ with ⟨kind, errors⟩
      rw [heval] at hlies
      rw [lexFrom_cons rfl heval] at hd ⊢
      obtain hd | hd := List.mem_append.1 hd
      · have hlies := hlies d hd
        refine ⟨hlies.holds, fun hcode => ?_⟩
        obtain ⟨k, hk, hquoted⟩ := hlies.quoted hcode
        obtain rfl : kind = some k := hk
        exact ⟨⟨k, ⟨offset, offset + byteLength (Lexeme.front c s)⟩⟩,
          List.mem_cons_self, hquoted, hlies.within⟩
      · obtain ⟨⟨text, htext⟩, hquoted⟩ := ih hd
        refine ⟨⟨text, ?_⟩, fun hcode => ?_⟩
        · rw [← hsplit]
          exact htext.behind
        · obtain ⟨token, htoken, hkind⟩ := hquoted hcode
          exact ⟨token, List.mem_append_right _ htoken, hkind⟩

/-- Each token of a text fits it, that at its end included. -/
theorem fits_of_mem_tokens {source : List Char} {token : Token} (h : token ∈ (lex source).tokens) :
    token.span.Fits source := by
  obtain ⟨-, hholds⟩ | ⟨c, s, errors, hholds, -⟩ := exists_lexeme_of_mem_lexFrom h
  · exact hholds.fits
  · exact hholds.fits

end Scriptlet
