import Scriptlet.Token.Lexeme

namespace Scriptlet.Lexeme

/-!
# Where lexemes end

A lexeme ends within its text. What is found at the front of a text stays the same if a line break
and any other text follow, with two exceptions: blanks go on behind the line break, and so does a
block comment that has not been closed.
-/

/-- Something of a certain length is found at the front of a text, and a line break behind the text
does not change it. -/
structure EndsAtBreak {α : Type} (length : α → Nat) (f : List Char → α) : Prop where
  le (s : List Char) : length (f s) ≤ s.length
  append (s t : List Char) : f (s ++ '\n' :: t) = f s

section

variable {f g : List Char → Nat} {p : Char → Bool}

theorem EndsAtBreak.drop (hf : EndsAtBreak id f) (s t : List Char) :
    (s ++ '\n' :: t).drop (f s) = s.drop (f s) ++ '\n' :: t :=
  List.drop_append_of_le_length (hf.le s)

/-- One length behind another. -/
theorem EndsAtBreak.seq (hf : EndsAtBreak id f) (hg : EndsAtBreak id g) :
    EndsAtBreak id fun s => f s + g (s.drop (f s)) where
  le s := by
    have hfirst := hf.le s
    have hsecond := hg.le (s.drop (f s))
    simp only [id_eq, List.length_drop] at hfirst hsecond ⊢
    omega
  append s t := by rw [hf.append, hf.drop, hg.append]

theorem endsAtBreak_runLength (hp : p '\n' = false) : EndsAtBreak id (runLength p) where
  le s := (List.takeWhile_prefix p).length_le
  append s t := by
    induction s with
    | nil => simp [runLength, hp]
    | cons c s ih =>
        simp only [runLength, List.cons_append, List.takeWhile_cons] at ih ⊢
        split
        · rw [List.length_cons, List.length_cons, ih]
        · rfl

theorem endsAtBreak_optional (hp : p '\n' = false) : EndsAtBreak id (optional p) where
  le s := by
    cases s with
    | nil => exact Nat.le_refl 0
    | cons c s =>
        simp only [optional, id_eq, List.length_cons]
        split <;> omega
  append s t := by
    cases s with
    | nil => simp [optional, hp]
    | cons c s => rfl

theorem endsAtBreak_digitRun : EndsAtBreak id digitRun :=
  endsAtBreak_runLength (by decide)

theorem endsAtBreak_fraction : EndsAtBreak id fraction where
  le s := by
    unfold fraction
    split
    · next d s =>
        have hrun := endsAtBreak_digitRun.le s
        simp only [id_eq, List.length_cons] at hrun ⊢
        split <;> omega
    · exact Nat.zero_le _
  append s t := by
    rcases s with _ | ⟨c, _ | ⟨d, s⟩⟩
    · rfl
    · by_cases hc : c = '.'
      · subst hc
        rfl
      · simp [fraction, hc]
    · by_cases hc : c = '.'
      · subst hc
        simp only [fraction, List.cons_append, endsAtBreak_digitRun.append]
      · simp [fraction, hc]

theorem endsAtBreak_exponent : EndsAtBreak id exponent where
  le s := by
    cases s with
    | nil => exact Nat.le_refl 0
    | cons c s =>
        have hbound := ((endsAtBreak_optional (p := fun c => c == '+' || c == '-') (by decide)).seq
          (endsAtBreak_runLength (p := Char.isDigit) (by decide))).le s
        simp only [exponent, id_eq, List.length_cons] at hbound ⊢
        split
        · split <;> omega
        · omega
  append s t := by
    cases s with
    | nil => rfl
    | cons c s =>
        have hsign := endsAtBreak_optional (p := fun c => c == '+' || c == '-') (by decide)
        have hdigits := endsAtBreak_runLength (p := Char.isDigit) (by decide)
        simp only [exponent, List.cons_append, hsign.append, hsign.drop, hdigits.append]

theorem endsAtBreak_realTail : EndsAtBreak id realTail :=
  endsAtBreak_exponent.seq (endsAtBreak_optional (by decide))

theorem endsAtBreak_longSuffix : EndsAtBreak id (optional isLongSuffix) :=
  endsAtBreak_optional (by decide)

theorem endsAtBreak_hexTail? : EndsAtBreak (·.getD 0) hexTail? where
  le s := by
    unfold hexTail?
    split
    · next x d s =>
        have hbound := ((endsAtBreak_runLength (p := fun c => isHexDigit c || c == '_')
          (by decide)).seq endsAtBreak_longSuffix).le s
        dsimp only at hbound ⊢
        split
        · simp only [Option.getD_some, id_eq, List.length_cons] at hbound ⊢
          omega
        · exact Nat.zero_le _
    · exact Nat.zero_le _
  append s t := by
    have hdigits := endsAtBreak_runLength (p := fun c => isHexDigit c || c == '_') (by decide)
    rcases s with _ | ⟨x, _ | ⟨d, s⟩⟩
    · cases t <;> rfl
    · have hbreak : isHexDigit '\n' = false := by decide
      simp [hexTail?, hbreak]
    · simp only [hexTail?, List.cons_append, hdigits.append, hdigits.drop,
        endsAtBreak_longSuffix.append]

theorem endsAtBreak_decimal : EndsAtBreak Prod.snd decimal where
  le s := by
    have hint := (endsAtBreak_digitRun.seq endsAtBreak_longSuffix).le s
    have hreal := ((endsAtBreak_digitRun.seq endsAtBreak_fraction).seq endsAtBreak_realTail).le s
    simp only [id_eq, ← List.drop_drop] at hint hreal
    unfold decimal
    dsimp only
    split
    · exact hreal
    · exact hint
  append s t := by
    have hsuffix := endsAtBreak_optional (p := isRealSuffix) (by decide)
    simp only [decimal, endsAtBreak_digitRun.append, endsAtBreak_digitRun.drop,
      endsAtBreak_fraction.append, endsAtBreak_fraction.drop, endsAtBreak_exponent.append,
      hsuffix.append, endsAtBreak_realTail.append, endsAtBreak_longSuffix.append]

theorem endsAtBreak_number (first : Char) : EndsAtBreak Prod.snd (number first) where
  le s := by
    unfold number
    split
    · split
      · next n hn =>
          have hhex := endsAtBreak_hexTail?.le s
          rwa [hn] at hhex
      · exact endsAtBreak_decimal.le s
    · exact endsAtBreak_decimal.le s
  append s t := by
    simp only [number, endsAtBreak_hexTail?.append, endsAtBreak_decimal.append]

/-- The content of a literal goes no further than its line. -/
theorem endsAtBreak_content (quote : Char) : EndsAtBreak id (content quote) where
  le s := by
    induction s using content.induct quote with
    | case1 => exact Nat.le_refl 0
    | case2 c h | case3 c h =>
        simp only [content, id_eq, List.length_singleton]
        split <;> omega
    | case4 c d s h =>
        rw [content, if_pos h]
        exact Nat.zero_le _
    | case5 s h =>
        rw [content, if_neg h, if_pos rfl, if_pos rfl]
        exact Nat.zero_le _
    | case6 d s hd h ih =>
        rw [content, if_neg h, if_pos rfl, if_neg hd]
        simp only [id_eq, List.length_cons] at ih ⊢
        omega
    | case7 c d s h hc ih =>
        rw [content, if_neg h, if_neg hc]
        simp only [id_eq, List.length_cons] at ih ⊢
        omega
  append s t := by
    have hbreak : content quote ('\n' :: t) = 0 := by
      cases t <;> simp [content]
    induction s using content.induct quote with
    | case1 => simpa [content] using hbreak
    | case2 c h =>
        simp only [List.cons_append, List.nil_append, content, if_pos h, if_true, hbreak]
        split
        · rfl
        · split
          · rfl
          · simp_all
    | case3 c h =>
        have hquote : ¬(c = quote ∨ c = '\n' ∨ c = '\r') := fun hor =>
          h (hor.imp_right (Or.imp_right Or.inl))
        have hc : c ≠ '\\' := fun hc => h (.inr (.inr (.inr hc)))
        simp only [List.cons_append, List.nil_append, content, if_neg h, if_neg hquote, if_neg hc,
          hbreak]
    | case4 c d s h => simp only [List.cons_append, content, if_pos h]
    | case5 s h => simp only [List.cons_append, content, if_neg h, if_true]
    | case6 d s hd h ih => simp only [List.cons_append, content, if_neg h, if_true, if_neg hd, ih]
    | case7 c d s h hc ih =>
        simp only [List.cons_append] at ih ⊢
        simp only [content, if_neg h, if_neg hc, ih]

theorem endsAtBreak_quoted {quote : Char} (hquote : quote ≠ '\n') :
    EndsAtBreak Prod.snd (quoted quote) where
  le s := by
    have hcontent := (endsAtBreak_content quote).le s
    unfold quoted
    dsimp only [id_eq] at hcontent ⊢
    split
    · next hclosed =>
        -- the closing quote is still in the text
        have hlt : 0 < (s.drop (content quote s)).length := by
          cases hrest : s.drop (content quote s) with
          | nil => simp [hrest] at hclosed
          | cons c rest => simp
        rw [List.length_drop] at hlt
        dsimp only
        omega
    · exact hcontent
  append s t := by
    have hcontent := endsAtBreak_content quote
    have hhead : ((s.drop (content quote s) ++ '\n' :: t).head? = some quote) ↔
        (s.drop (content quote s)).head? = some quote := by
      cases s.drop (content quote s) with
      | nil => simpa using hquote.symm
      | cons c rest => rfl
    simp only [quoted, hcontent.append, hcontent.drop, hhead]

theorem isPrefixOf_append_break {m : List Char} (hm : '\n' ∉ m) (s t : List Char) :
    m.isPrefixOf (s ++ '\n' :: t) = m.isPrefixOf s := by
  induction m generalizing s with
  | nil => simp
  | cons c m ih =>
      rw [List.mem_cons, not_or] at hm
      obtain ⟨hc, hm⟩ := hm
      cases s with
      | nil => simpa [List.isPrefixOf] using fun h => absurd h.symm hc
      | cons d s => simp only [List.cons_append, List.isPrefixOf, ih hm]

end

/-- A block comment is no longer than the text, and one that is closed stays as it is whatever
follows. -/
theorem blockComment_le (s : List Char) : (blockComment s).2 ≤ s.length := by
  induction s using blockComment.induct with
  | case1 => exact Nat.le_refl 0
  | case2 s => simp [blockComment]
  | case3 c s hopen closed n hs ih =>
      rw [blockComment.eq_3 _ _ hopen, List.length_cons]
      exact Nat.succ_le_succ ih

theorem blockComment_append {s : List Char} (h : (blockComment s).1 = true) (t : List Char) :
    blockComment (s ++ t) = blockComment s := by
  induction s using blockComment.induct with
  | case1 => simp [blockComment] at h
  | case2 s => simp [blockComment]
  | case3 c s hopen closed n hs ih =>
      rw [blockComment.eq_3 _ _ hopen] at h ⊢
      have hopen' : ∀ tail, c = '*' → s ++ t = '/' :: tail → False := by
        intro tail hc htail
        cases s with
        | nil => simp [blockComment] at h
        | cons d s =>
            cases htail
            exact hopen s hc rfl
      rw [List.cons_append, blockComment.eq_3 _ _ hopen', ih h]

/-- Behind an unclosed comment, only a text with a slash can close it. -/
theorem blockComment_append_unclosed {s t : List Char} (h : (blockComment s).1 = false)
    (ht : '/' ∉ t) : (blockComment (s ++ t)).1 = false := by
  induction s using blockComment.induct with
  | case1 =>
      rw [List.nil_append]
      induction t using blockComment.induct with
      | case1 => rfl
      | case2 s => simp at ht
      | case3 c s hopen closed n hs ih =>
          rw [blockComment.eq_3 _ _ hopen]
          exact ih fun hmem => ht (List.mem_cons_of_mem c hmem)
  | case2 s => cases h
  | case3 c s hopen closed n hs ih =>
      rw [blockComment.eq_3 _ _ hopen] at h
      have hopen' : ∀ tail, c = '*' → s ++ t = '/' :: tail → False := by
        intro tail hc htail
        cases s with
        | nil =>
            rw [List.nil_append] at htail
            rw [htail] at ht
            exact ht List.mem_cons_self
        | cons d s =>
            cases htail
            exact hopen s hc rfl
      rw [List.cons_append, blockComment.eq_3 _ _ hopen']
      exact ih h

end Scriptlet.Lexeme

namespace Scriptlet.Mark

theorem break_notMem_spelling (m : Mark) : '\n' ∉ m.spelling.toList := by
  cases m <;> decide

theorem longest?_append_break (s t : List Char) : longest? (s ++ '\n' :: t) = longest? s := by
  unfold longest?
  congr 1
  funext m
  exact Lexeme.isPrefixOf_append_break (break_notMem_spelling m) s t

theorem length_le_of_longest? {s : List Char} {m : Mark} (h : longest? s = some m) :
    m.spelling.length ≤ s.length := by
  unfold longest? at h
  have hfront := List.find?_some h
  rw [← String.length_toList]
  exact (List.isPrefixOf_iff_prefix.1 hfront).length_le

end Scriptlet.Mark

namespace Scriptlet.Lexeme

section

variable {c : Char} {s : List Char}

theorem scan_blank (hc : isSpace c = true) : scan c s = (.blank, runLength isSpace s) := by
  unfold scan
  rw [if_pos hc]

/-- A number is neither blank nor a comment. -/
theorem number_pattern (c : Char) (s : List Char) :
    (number c s).1 = .real ∨ (number c s).1 = .decimalInt ∨ (number c s).1 = .hexInt := by
  unfold number decimal
  dsimp only
  repeat' split
  all_goals simp

theorem number_ne_comment (c : Char) (s : List Char) (closed : Bool) :
    (number c s).1 ≠ .comment closed := by
  intro h
  rcases number_pattern c s with hp | hp | hp <;> rw [hp] at h <;> cases h

/-- What a lexeme can be, by the character that it begins with. -/
inductive Scanned (c : Char) (s : List Char) : Pattern × Nat → Prop
  | blank (hc : isSpace c = true) : Scanned c s (.blank, runLength isSpace s)
  | number (hc : isSpace c = false) (hdigit : c.isDigit = true) : Scanned c s (number c s)
  | word (hc : isSpace c = false) : Scanned c s (.word, runLength isWordPart s)
  | string (hc : isSpace c = false) : Scanned c s (.string (quoted '"' s).1, (quoted '"' s).2)
  | char (hc : isSpace c = false) : Scanned c s (.char (quoted '\'' s).1, (quoted '\'' s).2)
  | line (t : List Char) (hc : c = '/') (hs : s = '/' :: t) :
      Scanned c s (.comment true, 1 + runLength (· != '\n') t)
  | block (t : List Char) (hc : c = '/') (hs : s = '*' :: t) :
      Scanned c s (.comment (blockComment t).1, 1 + (blockComment t).2)
  | point (hc : isSpace c = false) (hpoint : 0 < fraction (c :: s)) : Scanned c s
      (.real, fraction (c :: s) - 1 + realTail ((c :: s).drop (fraction (c :: s))))
  | mark (m : Mark) (hc : isSpace c = false) (hm : Mark.longest? (c :: s) = some m) :
      Scanned c s (.mark m, m.spelling.length - 1)
  | unexpected (hc : isSpace c = false) : Scanned c s (.unexpected, 0)

theorem scanned (c : Char) (s : List Char) : Scanned c s (scan c s) := by
  unfold scan
  by_cases hc : isSpace c = true
  · rw [if_pos hc]
    exact .blank hc
  · rw [if_neg hc]
    rw [Bool.not_eq_true] at hc
    dsimp only
    repeat' split
    · next hdigit => exact .number hc hdigit
    · exact .word hc
    · exact .string hc
    · exact .char hc
    · exact .line _ rfl rfl
    · exact .block _ rfl rfl
    · next hpoint => exact .point hc hpoint
    · next m hm => exact .mark m hc hm
    · exact .unexpected hc

theorem scan_ne_blank (hc : isSpace c = false) : (scan c s).1 ≠ .blank := by
  intro h
  have hscanned := scanned c s
  generalize scan c s = lexeme at hscanned h
  cases hscanned with
  | blank hblank =>
      rw [hc] at hblank
      cases hblank
  | number _ _ => rcases number_pattern c s with hp | hp | hp <;> rw [hp] at h <;> cases h
  | _ => cases h

/-- A lexeme ends within the text. -/
theorem scan_le (c : Char) (s : List Char) : (scan c s).2 ≤ s.length := by
  have hscanned := scanned c s
  generalize scan c s = lexeme at hscanned ⊢
  cases hscanned with
  | blank hc => exact (List.takeWhile_prefix isSpace).length_le
  | number _ _ => exact (endsAtBreak_number c).le s
  | word hc => exact (List.takeWhile_prefix isWordPart).length_le
  | string hc => exact (endsAtBreak_quoted (by decide)).le s
  | char hc => exact (endsAtBreak_quoted (by decide)).le s
  | line t hc hs =>
      have hrun : runLength (· != '\n') t ≤ t.length := (List.takeWhile_prefix _).length_le
      rw [hs, List.length_cons]
      omega
  | block t hc hs =>
      have hblock := blockComment_le t
      rw [hs, List.length_cons]
      dsimp only
      omega
  | point hc hpoint =>
      have hbound := (endsAtBreak_fraction.seq endsAtBreak_realTail).le (c :: s)
      simp only [id_eq, List.length_cons] at hbound ⊢
      omega
  | mark m hc hm =>
      have hmark := Mark.length_le_of_longest? hm
      rw [List.length_cons] at hmark
      dsimp only
      omega
  | unexpected hc => exact Nat.zero_le _

/-- An unclosed comment stays unclosed if no slash follows. -/
theorem scan_append_unclosed {t : List Char} (h : (scan c s).1 = .comment false) (ht : '/' ∉ t) :
    (scan c (s ++ t)).1 = .comment false := by
  have hscanned := scanned c s
  generalize scan c s = lexeme at hscanned h
  cases hscanned with
  | block r hc hs =>
      subst hc hs
      rw [Pattern.comment.injEq] at h
      exact congrArg Pattern.comment (blockComment_append_unclosed h ht)
  | number _ _ => exact absurd h (number_ne_comment c s false)
  | _ => cases h

/-- A comment begins with a slash. -/
theorem eq_slash_of_scan {closed : Bool} (h : (scan c s).1 = .comment closed) : c = '/' := by
  have hscanned := scanned c s
  generalize scan c s = lexeme at hscanned h
  cases hscanned with
  | line t hc hs => exact hc
  | block t hc hs => exact hc
  | number _ _ => exact absurd h (number_ne_comment c s closed)
  | _ => cases h

/-- What begins with no comment is a number, a word, a literal in quotes, a mark or unexpected. -/
theorem scan_of_not_comment (hc : isSpace c = false) (hline : ∀ t, c = '/' → s ≠ '/' :: t)
    (hblock : ∀ t, c = '/' → s ≠ '*' :: t) :
    scan c s =
      if c.isDigit then number c s
      else if isWordStart c then (.word, runLength isWordPart s)
      else if c = '"' then (.string (quoted '"' s).1, (quoted '"' s).2)
      else if c = '\'' then (.char (quoted '\'' s).1, (quoted '\'' s).2)
      else if 0 < fraction (c :: s) then
        (.real, fraction (c :: s) - 1 + realTail ((c :: s).drop (fraction (c :: s))))
      else
        match Mark.longest? (c :: s) with
        | some m => (.mark m, m.spelling.length - 1)
        | none => (.unexpected, 0) := by
  unfold scan
  rw [hc, if_neg Bool.false_ne_true]
  split
  · rfl
  · split
    · rfl
    · split
      · rfl
      · split
        · rfl
        · split
          · exact absurd rfl (hline _ rfl)
          · exact absurd rfl (hblock _ rfl)
          · rfl

/-- A line break behind the text does not change a lexeme that is neither blank nor an unclosed
comment. -/
theorem scan_append_break (hc : isSpace c = false) (hclosed : (scan c s).1 ≠ .comment false)
    (t : List Char) : scan c (s ++ '\n' :: t) = scan c s := by
  by_cases hline : ∃ r, c = '/' ∧ s = '/' :: r
  · obtain ⟨r, rfl, rfl⟩ := hline
    have hrun := (endsAtBreak_runLength (p := (· != '\n')) (by decide)).append r t
    calc
      scan '/' ('/' :: (r ++ '\n' :: t)) =
          (.comment true, 1 + runLength (· != '\n') (r ++ '\n' :: t)) := rfl
      _ = (.comment true, 1 + runLength (· != '\n') r) := by rw [hrun]
  · by_cases hblock : ∃ r, c = '/' ∧ s = '*' :: r
    · obtain ⟨r, rfl, rfl⟩ := hblock
      have hr : (blockComment r).1 = true := by
        cases hb : (blockComment r).1 with
        | true => rfl
        | false => exact absurd (congrArg Pattern.comment hb) hclosed
      calc
        scan '/' ('*' :: (r ++ '\n' :: t)) = (.comment (blockComment (r ++ '\n' :: t)).1,
            1 + (blockComment (r ++ '\n' :: t)).2) := rfl
        _ = (.comment (blockComment r).1, 1 + (blockComment r).2) := by
          rw [blockComment_append hr]
    · have hhead : ∀ d r, d ≠ '\n' → s ++ '\n' :: t = d :: r → ∃ r', s = d :: r' := by
        intro d r hd hs
        cases s with
        | nil => exact absurd (List.cons.inj hs).1.symm hd
        | cons e s =>
            cases hs
            exact ⟨s, rfl⟩
      have hword := endsAtBreak_runLength (p := isWordPart) (by decide)
      have hstring : EndsAtBreak Prod.snd (quoted '"') := endsAtBreak_quoted (by decide)
      have hchar : EndsAtBreak Prod.snd (quoted '\'') := endsAtBreak_quoted (by decide)
      have hfraction := endsAtBreak_fraction.append (c :: s) t
      have hdrop := endsAtBreak_fraction.drop (c :: s) t
      have hmark := Mark.longest?_append_break (c :: s) t
      rw [List.cons_append] at hfraction hdrop hmark
      rw [scan_of_not_comment hc (fun r hc hs => hline ⟨r, hc, hs⟩)
          (fun r hc hs => hblock ⟨r, hc, hs⟩),
        scan_of_not_comment hc
          (fun r hc hs => hline ((hhead '/' r (by decide) hs).imp fun _ hs => ⟨hc, hs⟩))
          (fun r hc hs => hblock ((hhead '*' r (by decide) hs).imp fun _ hs => ⟨hc, hs⟩))]
      simp only [(endsAtBreak_number c).append, hword.append, hstring.append, hchar.append,
        hfraction, hdrop, endsAtBreak_realTail.append, hmark]

end

end Scriptlet.Lexeme
