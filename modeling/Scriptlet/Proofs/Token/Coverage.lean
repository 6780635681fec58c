import Scriptlet.Proofs.Token.Lexer

namespace Scriptlet

/-!
# Lexing loses nothing

Every byte of a source text belongs to exactly one token, to one unexpected character, or to the
blanks and comments between them. A comment that is not closed runs to the end of the text and is
reported.
-/

open Text (Span byteLength)

/-! ### Spans of a text -/

namespace Text

theorem byteLength_pos {s : List Char} (h : s ≠ []) : 0 < byteLength s := by
  cases s with
  | nil => exact absurd rfl h
  | cons c s =>
      have hc := c.utf8Size_pos
      rw [byteLength_cons]
      omega

/-- Of two fronts of a text, the shorter one begins the longer one. -/
theorem exists_of_append_eq_append {a b c d : List Char} (h : a ++ b = c ++ d)
    (hle : byteLength a ≤ byteLength c) : ∃ e, c = a ++ e ∧ b = e ++ d := by
  rcases List.append_eq_append_iff.1 h with ⟨e, rfl, rfl⟩ | ⟨e, rfl, rfl⟩
  · exact ⟨e, rfl, rfl⟩
  · cases e with
    | nil => exact ⟨[], by simp, by simp⟩
    | cons x e =>
        have hpos := byteLength_pos (List.cons_ne_nil x e)
        rw [byteLength_append] at hle
        omega

/-- A text splits in one way at an offset between its characters. -/
theorem append_inj_of_byteLength {a b c d : List Char} (h : a ++ b = c ++ d)
    (hlength : byteLength a = byteLength c) : a = c ∧ b = d := by
  obtain ⟨e, rfl, rfl⟩ := exists_of_append_eq_append h (Nat.le_of_eq hlength)
  cases e with
  | nil => exact ⟨(List.append_nil a).symm, rfl⟩
  | cons x e =>
      have hpos := byteLength_pos (List.cons_ne_nil x e)
      rw [byteLength_append] at hlength
      omega

namespace Span

/-- A span ends where another one begins, or before. -/
def Before (s t : Span) : Prop :=
  s.stop ≤ t.start

/-- Two spans that have no byte in common. -/
def Apart (s t : Span) : Prop :=
  s.Before t ∨ t.Before s

/-- What a span holds of a text that begins at an offset. Both ends of the span are between
characters. -/
def Holds (offset : Nat) (source : List Char) (s : Span) (text : List Char) : Prop :=
  ∃ front back, source = front ++ text ++ back ∧ s.start = offset + byteLength front ∧
    s.stop = s.start + byteLength text

theorem Holds.behind {offset : Nat} {p source text : List Char} {s : Span}
    (h : s.Holds (offset + byteLength p) source text) : s.Holds offset (p ++ source) text := by
  obtain ⟨front, back, rfl, hstart, hstop⟩ := h
  refine ⟨p ++ front, back, by simp only [List.append_assoc], ?_, hstop⟩
  rw [byteLength_append, hstart, Nat.add_assoc]

theorem Holds.of_behind {offset : Nat} {p source text : List Char} {s : Span}
    (h : s.Holds offset (p ++ source) text) (hp : offset + byteLength p ≤ s.start) :
    s.Holds (offset + byteLength p) source text := by
  obtain ⟨front, back, hsource, hstart, hstop⟩ := h
  rw [List.append_assoc] at hsource
  obtain ⟨front, rfl, hrest⟩ := exists_of_append_eq_append hsource (by omega)
  refine ⟨front, back, by rw [hrest, List.append_assoc], ?_, hstop⟩
  rw [hstart, byteLength_append, Nat.add_assoc]

theorem Holds.le_start {offset : Nat} {source text : List Char} {s : Span}
    (h : s.Holds offset source text) : offset ≤ s.start := by
  obtain ⟨front, -, -, hstart, -⟩ := h
  omega

theorem Holds.start_le {offset : Nat} {source text : List Char} {s : Span}
    (h : s.Holds offset source text) : s.start ≤ s.stop := by
  obtain ⟨-, -, -, -, hstop⟩ := h
  omega

/-- A span holds one text. -/
theorem Holds.unique {offset : Nat} {source x y : List Char} {s : Span}
    (hx : s.Holds offset source x) (hy : s.Holds offset source y) : x = y := by
  obtain ⟨front, back, hsource, hstart, hstop⟩ := hx
  obtain ⟨front', back', hsource', hstart', hstop'⟩ := hy
  rw [hsource, List.append_assoc, List.append_assoc] at hsource'
  obtain ⟨-, hrest⟩ := append_inj_of_byteLength hsource' (by omega)
  exact (append_inj_of_byteLength hrest (by omega)).1

end Span

end Text

/-! ### Blanks and comments -/

/-- Blanks, line comments with their line breaks, and block comments, each up to the first `*/`. -/
inductive Trivia : List Char → Prop
  | nil : Trivia []
  | blank {c : Char} {s : List Char} (hc : Lexeme.isSpace c = true) (h : Trivia s) : Trivia (c :: s)
  | line {body s : List Char} (hbody : '\n' ∉ body) (h : Trivia s) :
      Trivia (('/' :: '/' :: body) ++ '\n' :: s)
  | block {body s : List Char} (hbody : ¬['*', '/'] <:+: body ++ ['*']) (h : Trivia s) :
      Trivia (('/' :: '*' :: body) ++ '*' :: '/' :: s)

/-- What a text may end with behind its trivia: nothing, or a line comment on the last line. -/
def IsLastLine (s : List Char) : Prop :=
  s = [] ∨ ∃ body, s = '/' :: '/' :: body ∧ '\n' ∉ body

def IsUnclosed (s : List Char) : Prop :=
  ∃ body, s = '/' :: '*' :: body ∧ ¬['*', '/'] <:+: body

/-- What spans leave uncovered between two of them, or at an end of the text. -/
structure Gap (offset : Nat) (source : List Char) (spans : List Span) (gap : Span)
    (text : List Char) : Prop where
  holds : gap.Holds offset source text
  opens : gap.start = offset ∨ ∃ s ∈ spans, s.stop = gap.start
  closes : gap.stop = offset + byteLength source ∨ ∃ s ∈ spans, s.start = gap.stop
  free : ∀ s ∈ spans, s.Apart gap

/-- Where nothing is covered, the gap is the whole text. -/
theorem Gap.whole {offset : Nat} {source : List Char} {g : Span} {text : List Char}
    (h : Gap offset source [] g text) :
    g.start = offset ∧ g.stop = offset + byteLength source ∧ text = source := by
  have hstart : g.start = offset := h.opens.resolve_right (by simp)
  have hstop : g.stop = offset + byteLength source := h.closes.resolve_right (by simp)
  have hall : g.Holds offset source source :=
    ⟨[], [], by rw [List.nil_append, List.append_nil], hstart, by rw [hstop, hstart]⟩
  exact ⟨hstart, hstop, h.holds.unique hall⟩

theorem Gap.congr {offset : Nat} {source : List Char} {spans spans' : List Span} {g : Span}
    {text : List Char} (h : ∀ s, s ∈ spans ↔ s ∈ spans') :
    Gap offset source spans g text ↔ Gap offset source spans' g text := by
  constructor
  · rintro ⟨hholds, hopens, hcloses, hfree⟩
    simp only [h] at hopens hcloses hfree
    exact ⟨hholds, hopens, hcloses, hfree⟩
  · rintro ⟨hholds, hopens, hcloses, hfree⟩
    simp only [← h] at hopens hcloses hfree
    exact ⟨hholds, hopens, hcloses, hfree⟩

/-- A gap behind the first span is a gap of what follows that span. -/
theorem Gap.behind {offset : Nat} {t x rest : List Char} {spans : List Span} {g : Span}
    {text : List Char} (h : Gap offset (t ++ (x ++ rest))
      (⟨offset + byteLength t, offset + byteLength t + byteLength x⟩ :: spans) g text)
    (hx : x ≠ []) (hbehind : offset + byteLength t + byteLength x ≤ g.start) :
    Gap (offset + byteLength t + byteLength x) rest spans g text := by
  have hpos := Text.byteLength_pos hx
  have hle := h.holds.start_le
  have hholds := h.holds
  rw [← List.append_assoc] at hholds
  refine ⟨?_, ?_, ?_, fun s hs => h.free s (List.mem_cons_of_mem _ hs)⟩
  · rw [Nat.add_assoc, ← Text.byteLength_append] at hbehind ⊢
    exact hholds.of_behind hbehind
  · rcases h.opens with hstart | ⟨s, hs, hstop⟩
    · omega
    · rcases List.mem_cons.1 hs with rfl | hs
      · exact .inl hstop.symm
      · exact .inr ⟨s, hs, hstop⟩
  · rcases h.closes with hstop | ⟨s, hs, hstop⟩
    · left
      rw [hstop]
      simp only [Text.byteLength_append, Nat.add_assoc]
    · rcases List.mem_cons.1 hs with rfl | hs
      · dsimp only at hstop
        omega
      · exact .inr ⟨s, hs, hstop⟩

/-- A text that spans cover but for trivia, from an offset on. The last spans are those of comments
that are not closed. -/
inductive Tiled : Nat → List Char → List Span → List Span → Prop
  | done {offset : Nat} {t e : List Char} (ht : Trivia t) (he : IsLastLine e) :
      Tiled offset (t ++ e) [] []
  | unclosed {offset : Nat} {t e : List Char} (ht : Trivia t) (he : IsUnclosed e) :
      Tiled offset (t ++ e) []
        [⟨offset + byteLength t, offset + byteLength t + byteLength e⟩]
  | span {offset : Nat} {t x s : List Char} {spans unclosed : List Span} (ht : Trivia t)
      (hx : x ≠ []) (h : Tiled (offset + byteLength t + byteLength x) s spans unclosed) :
      Tiled offset (t ++ (x ++ s))
        (⟨offset + byteLength t, offset + byteLength t + byteLength x⟩ :: spans) unclosed

namespace Tiled

variable {offset : Nat} {source : List Char} {spans unclosed : List Span}

/-- Something before a tiled text that is trivia in front of trivia. -/
theorem skip {p : List Char} (hp : ∀ t, Trivia t → Trivia (p ++ t))
    (h : Tiled (offset + byteLength p) source spans unclosed) :
    Tiled offset (p ++ source) spans unclosed := by
  cases h with
  | @done _ t e ht he =>
      rw [← List.append_assoc]
      exact .done (hp t ht) he
  | @unclosed _ t e ht he =>
      rw [← List.append_assoc, Nat.add_assoc offset, ← Text.byteLength_append]
      exact .unclosed (hp t ht) he
  | @span _ t x s spans _ ht hx h =>
      rw [← List.append_assoc, Nat.add_assoc offset, ← Text.byteLength_append] at *
      exact .span (hp t ht) hx h

theorem within (h : Tiled offset source spans unclosed) {s : Span} (hs : s ∈ spans) :
    offset ≤ s.start ∧ s.start < s.stop ∧ s.stop ≤ offset + byteLength source := by
  induction h with
  | done ht he => cases hs
  | unclosed ht he => cases hs
  | @span offset t x rest spans _ ht hx h ih =>
      have hpos := Text.byteLength_pos hx
      simp only [Text.byteLength_append]
      rcases List.mem_cons.1 hs with rfl | hs
      · dsimp only
        omega
      · have hrest := ih hs
        omega

theorem holds (h : Tiled offset source spans unclosed) {s : Span} (hs : s ∈ spans) :
    ∃ text, s.Holds offset source text := by
  induction h with
  | done ht he => cases hs
  | unclosed ht he => cases hs
  | @span offset t x rest spans _ ht hx h ih =>
      rcases List.mem_cons.1 hs with rfl | hs
      · exact ⟨x, t, rest, by rw [List.append_assoc], rfl, rfl⟩
      · obtain ⟨text, htext⟩ := ih hs
        rw [Nat.add_assoc] at htext
        rw [← List.append_assoc]
        refine ⟨text, Span.Holds.behind ?_⟩
        rwa [Text.byteLength_append]

theorem pairwise_before (h : Tiled offset source spans unclosed) : spans.Pairwise Span.Before := by
  induction h with
  | done ht he => exact .nil
  | unclosed ht he => exact .nil
  | span ht hx h ih => exact .cons (fun s hs => (h.within hs).1) ih

/-- What lies between the spans is trivia, and what lies behind them is trivia and at most one
comment. -/
theorem gap (h : Tiled offset source spans unclosed) {g : Span} {text : List Char}
    (hg : Gap offset source spans g text) :
    (g.stop ≠ offset + byteLength source → Trivia text) ∧
      (g.stop = offset + byteLength source → ∃ t e, text = t ++ e ∧ Trivia t ∧
        (IsLastLine e ∧ unclosed = [] ∨
          IsUnclosed e ∧ unclosed = [⟨g.start + byteLength t, g.stop⟩])) := by
  induction h with
  | @done offset t e ht he =>
      obtain ⟨hstart, hstop, htext⟩ := hg.whole
      exact ⟨fun hne => absurd hstop hne, fun _ => ⟨t, e, htext, ht, .inl ⟨he, rfl⟩⟩⟩
  | @unclosed offset t e ht he =>
      obtain ⟨hstart, hstop, htext⟩ := hg.whole
      refine ⟨fun hne => absurd hstop hne, fun _ => ⟨t, e, htext, ht, .inr ⟨he, ?_⟩⟩⟩
      rw [hstop, hstart, Text.byteLength_append, Nat.add_assoc]
  | @span offset t x rest spans unclosed ht hx h ih =>
      have hpos := Text.byteLength_pos hx
      have hlength : offset + byteLength (t ++ (x ++ rest)) =
          offset + byteLength t + byteLength x + byteLength rest := by
        simp only [Text.byteLength_append, Nat.add_assoc]
      rcases hg.free _ List.mem_cons_self with hbehind | hbefore
      · rw [hlength]
        exact ih (hg.behind hx hbehind)
      · have hle := hg.holds.start_le
        have hlater : ∀ s ∈ spans, offset + byteLength t < s.start := fun s hs => by
          have hwithin := h.within hs
          omega
        unfold Span.Before at hbefore
        have hstart : g.start = offset := by
          rcases hg.opens with hstart | ⟨s, hs, hstop⟩
          · exact hstart
          · rcases List.mem_cons.1 hs with rfl | hs
            · dsimp only at hstop hbefore
              omega
            · have hwithin := h.within hs
              dsimp only at hbefore
              omega
        have hstop : g.stop = offset + byteLength t := by
          rcases hg.closes with hstop | ⟨s, hs, hstop⟩
          · dsimp only at hbefore
            omega
          · rcases List.mem_cons.1 hs with rfl | hs
            · exact hstop.symm
            · have hwithin := hlater s hs
              dsimp only at hbefore
              omega
        have hholds : g.Holds offset (t ++ (x ++ rest)) t :=
          ⟨[], x ++ rest, rfl, hstart, by rw [hstop, hstart]⟩
        obtain rfl := hg.holds.unique hholds
        exact ⟨fun _ => ht, fun hend => by omega⟩

theorem exists_last_gap (h : Tiled offset source spans unclosed) :
    ∃ g text, Gap offset source spans g text ∧ g.stop = offset + byteLength source := by
  have hwhole : ∀ offset source, Gap offset source []
      ⟨offset, offset + byteLength source⟩ source := fun offset source =>
    ⟨⟨[], [], by rw [List.nil_append, List.append_nil], rfl, rfl⟩, .inl rfl, .inl rfl, by simp⟩
  induction h with
  | done ht he => exact ⟨_, _, hwhole _ _, rfl⟩
  | unclosed ht he => exact ⟨_, _, hwhole _ _, rfl⟩
  | @span offset t x rest spans unclosed ht hx h ih =>
      obtain ⟨g, text, ⟨hholds, hopens, hcloses, hfree⟩, hstop⟩ := ih
      have hlength : offset + byteLength (t ++ (x ++ rest)) =
          offset + byteLength t + byteLength x + byteLength rest := by
        simp only [Text.byteLength_append, Nat.add_assoc]
      have hstart := hholds.le_start
      refine ⟨g, text, ⟨?_, ?_, .inl (by rw [hlength, hstop]), ?_⟩, by rw [hlength, hstop]⟩
      · rw [← List.append_assoc]
        refine Span.Holds.behind ?_
        rwa [Text.byteLength_append, ← Nat.add_assoc]
      · rcases hopens with hopens | ⟨s, hs, hopens⟩
        · exact .inr ⟨_, List.mem_cons_self, hopens.symm⟩
        · exact .inr ⟨s, List.mem_cons_of_mem _ hs, hopens⟩
      · intro s hs
        rcases List.mem_cons.1 hs with rfl | hs
        · exact .inl hstart
        · exact hfree s hs

end Tiled

/-! ### Comments -/

namespace Lexeme

theorem not_infix_cons {c : Char} {s : List Char} (h : ¬['*', '/'] <:+: s)
    (hc : ∀ t, c = '*' → s ≠ '/' :: t) : ¬['*', '/'] <:+: c :: s := by
  intro hinfix
  rcases List.infix_cons_iff.1 hinfix with ⟨t, ht⟩ | hinfix
  · cases ht
    exact hc t rfl rfl
  · exact h hinfix

/-- A closed block comment ends with the first `*/`. -/
theorem blockComment_closed {s : List Char} (h : (blockComment s).1 = true) :
    ∃ body, s = body ++ '*' :: '/' :: s.drop (blockComment s).2 ∧
      s.take (blockComment s).2 = body ++ ['*', '/'] ∧ ¬['*', '/'] <:+: body ++ ['*'] := by
  induction s using blockComment.induct with
  | case1 => cases h
  | case2 s => exact ⟨[], rfl, rfl, by decide⟩
  | case3 c s hopen closed n hs ih =>
      rw [blockComment.eq_3 _ _ hopen] at h ⊢
      obtain ⟨body, hbody, htake, hfirst⟩ := ih h
      refine ⟨c :: body, ?_, ?_, ?_⟩
      · rw [List.drop_succ_cons, List.cons_append, ← hbody]
      · rw [List.take_succ_cons, htake, List.cons_append]
      · refine not_infix_cons hfirst fun t hc ht => ?_
        cases body with
        | nil => cases ht
        | cons d body =>
            cases ht
            exact hopen _ hc hbody

theorem blockComment_unclosed {s : List Char} (h : (blockComment s).1 = false) :
    (blockComment s).2 = s.length ∧ ¬['*', '/'] <:+: s := by
  induction s using blockComment.induct with
  | case1 => exact ⟨rfl, by decide⟩
  | case2 s => cases h
  | case3 c s hopen closed n hs ih =>
      rw [blockComment.eq_3 _ _ hopen] at h ⊢
      obtain ⟨hlength, hinfix⟩ := ih h
      exact ⟨congrArg Nat.succ hlength, not_infix_cons hinfix fun t hc ht => hopen t hc ht⟩

/-- A closed comment is a line comment up to the end of its line, or a block comment. -/
theorem scan_closed {c : Char} {s : List Char} (h : (scan c s).1 = .comment true) :
    (∃ body, front c s = '/' :: '/' :: body ∧ '\n' ∉ body ∧
        (rest c s = [] ∨ ∃ t, rest c s = '\n' :: t)) ∨
      ∃ body, front c s = ('/' :: '*' :: body) ++ ['*', '/'] ∧ ¬['*', '/'] <:+: body ++ ['*'] := by
  have hscanned := scanned c s
  unfold front rest
  generalize scan c s = lexeme at hscanned h ⊢
  cases hscanned with
  | line t hc hs =>
      left
      subst hc hs
      refine ⟨t.takeWhile (· != '\n'), ?_, ?_, ?_⟩
      · rw [Nat.add_comm, List.take_succ_cons, take_runLength]
      · intro hmem
        have hall := List.all_eq_true.1 List.all_takeWhile _ hmem
        simp at hall
      · rw [Nat.add_comm, List.drop_succ_cons, drop_runLength]
        cases hrest : t.dropWhile (· != '\n') with
        | nil => exact .inl rfl
        | cons d r =>
            have hd := List.head?_dropWhile_not (· != '\n') t
            rw [hrest] at hd
            simp only [List.head?_cons, bne_eq_false_iff_eq] at hd
            exact .inr ⟨r, by rw [hd]⟩
  | block t hc hs =>
      right
      subst hc hs
      rw [Pattern.comment.injEq] at h
      obtain ⟨body, -, htake, hfirst⟩ := blockComment_closed h
      refine ⟨body, ?_, hfirst⟩
      rw [Nat.add_comm, List.take_succ_cons, htake]
      rfl
  | number _ _ => exact absurd h (number_ne_comment c s true)
  | _ => cases h

/-- An unclosed comment is all that is left of the text. -/
theorem scan_unclosed {c : Char} {s : List Char} (h : (scan c s).1 = .comment false) :
    IsUnclosed (front c s) ∧ rest c s = [] := by
  have hscanned := scanned c s
  unfold front rest
  generalize scan c s = lexeme at hscanned h ⊢
  cases hscanned with
  | block t hc hs =>
      subst hc hs
      rw [Pattern.comment.injEq] at h
      obtain ⟨hlength, hinfix⟩ := blockComment_unclosed h
      rw [hlength, Nat.add_comm, List.take_succ_cons, List.drop_succ_cons, List.take_length,
        List.drop_length]
      exact ⟨⟨t, rfl, hinfix⟩, rfl⟩
  | number _ _ => exact absurd h (number_ne_comment c s false)
  | _ => cases h

end Lexeme

/-! ### Tokens, unexpected characters and comments of a text -/

namespace Lexed

/-- The spans of the tokens, the one that marks the end aside. -/
def tokenSpans (out : Lexed) : List Span :=
  (out.tokens.filter (·.kind ≠ .eof)).map Token.span

/-- The spans of the diagnostics with a certain code. -/
def reportedSpans (out : Lexed) (code : ErrorCode) : List Span :=
  (out.diagnostics.filter (·.code = code)).map Diagnostic.span

/-- The spans of the tokens and of the unexpected characters. -/
def coveredSpans (out : Lexed) : List Span :=
  out.tokenSpans ++ out.reportedSpans ⟨2⟩

end Lexed

/-- In some order, the spans of the tokens and of the unexpected characters are the tiles of a text
that begins at an offset. -/
def Tiles (offset : Nat) (source : List Char) (out : Lexed) : Prop :=
  ∃ spans, Tiled offset source spans (out.reportedSpans ⟨6⟩) ∧
    out.tokenSpans.Sublist spans ∧ (out.reportedSpans ⟨2⟩).Sublist spans ∧
      spans.Perm out.coveredSpans

namespace Tiles

variable {offset : Nat} {source x : List Char} {out : Lexed}

theorem skip {p : List Char} (hp : ∀ t, Trivia t → Trivia (p ++ t))
    (h : Tiles (offset + byteLength p) source out) : Tiles offset (p ++ source) out := by
  obtain ⟨spans, htiled, hmerged⟩ := h
  exact ⟨spans, htiled.skip hp, hmerged⟩

theorem done {e : List Char} (he : IsLastLine e) (stop : Nat) :
    Tiles offset e ⟨[⟨.eof, .point stop⟩], []⟩ :=
  ⟨[], .done .nil he, List.Sublist.refl [], List.Sublist.refl [], .refl []⟩

theorem unclosed {e : List Char} (he : IsUnclosed e) (stop : Nat) :
    Tiles offset e ⟨[⟨.eof, .point stop⟩],
      [LexError.unclosedComment.diagnostic ⟨offset, offset + byteLength e⟩]⟩ :=
  ⟨[], .unclosed .nil he, List.Sublist.refl [], List.Sublist.refl [], .refl []⟩

theorem token {x : List Char} (hx : x ≠ []) {r : TokenKind × List Diagnostic}
    (hr : Lexeme.IsReading r) (h : Tiles (offset + byteLength x) source out) :
    Tiles offset (x ++ source)
      ⟨⟨r.1, ⟨offset, offset + byteLength x⟩⟩ :: out.tokens, r.2 ++ out.diagnostics⟩ := by
  obtain ⟨spans, htiled, htokens, hunexpected, hperm⟩ := h
  have hfaults : ∀ code, code = ⟨2⟩ ∨ code = ⟨6⟩ →
      (r.2 ++ out.diagnostics).filter (·.code = code) = out.diagnostics.filter (·.code = code) := by
    intro code hcode
    have hnone : r.2.filter (·.code = code) = [] := by
      refine List.filter_eq_nil_iff.2 fun d hd => ?_
      have hne := hr.2 d hd
      rcases hcode with rfl | rfl
      · simpa using hne.1
      · simpa using hne.2
    rw [List.filter_append, hnone, List.nil_append]
  refine ⟨⟨offset, offset + byteLength x⟩ :: spans, ?_, ?_, ?_, ?_⟩
  · simp only [Lexed.reportedSpans, hfaults _ (.inr rfl)]
    exact .span .nil hx htiled
  · simp only [Lexed.tokenSpans]
    rw [List.filter_cons_of_pos (by simpa using hr.1)]
    exact htokens.cons_cons _
  · simp only [Lexed.reportedSpans, hfaults _ (.inl rfl)]
    exact hunexpected.cons _
  · simp only [Lexed.coveredSpans, Lexed.tokenSpans, Lexed.reportedSpans, hfaults _ (.inl rfl)]
    rw [List.filter_cons_of_pos (by simpa using hr.1)]
    exact hperm.cons _

theorem unexpected {x : List Char} (hx : x ≠ []) (c : Char)
    (h : Tiles (offset + byteLength x) source out) :
    Tiles offset (x ++ source)
      ⟨out.tokens, (LexError.unexpected c).diagnostic ⟨offset, offset + byteLength x⟩ ::
        out.diagnostics⟩ := by
  obtain ⟨spans, htiled, htokens, hunexpected, hperm⟩ := h
  refine ⟨⟨offset, offset + byteLength x⟩ :: spans, ?_, htokens.cons _, ?_, ?_⟩
  · exact .span .nil hx htiled
  · exact hunexpected.cons_cons _
  · exact (hperm.cons _).trans List.perm_middle.symm

end Tiles

theorem tiles_lexFrom (offset : Nat) (source : List Char) :
    Tiles offset source (lexFrom offset source) := by
  induction hlength : source.length using Nat.strongRecOn generalizing offset source with
  | ind n ih =>
      subst hlength
      cases source with
      | nil =>
          rw [lexFrom_nil]
          exact .done (.inl rfl) offset
      | cons c s =>
          by_cases hc : Lexeme.isSpace c = true
          · rw [lexFrom_blank hc]
            have hrest := ih s.length (Nat.lt_succ_self _) (offset + c.utf8Size) s rfl
            exact Tiles.skip (p := [c]) (fun t ht => .blank hc ht) (by simpa using hrest)
          · have hx : Lexeme.front c s ≠ [] := List.cons_ne_nil _ _
            have hsplit := Lexeme.front_append_rest c s
            have hlength := Lexeme.length_rest c s
            have hrest := ih _ hlength (offset + byteLength (Lexeme.front c s)) _ rfl
            cases hp : (Lexeme.scan c s).1 with
            | blank => exact absurd hp (Lexeme.scan_ne_blank ((Bool.not_eq_true _).mp hc))
            | comment closed =>
                cases closed with
                | false =>
                    obtain ⟨hunclosed, hnil⟩ := Lexeme.scan_unclosed hp
                    rw [hnil, List.append_nil] at hsplit
                    rw [lexFrom_unclosed hp, hnil, lexFrom_nil, ← hsplit]
                    exact .unclosed hunclosed _
                | true =>
                    rw [lexFrom_closed hp]
                    rcases Lexeme.scan_closed hp with
                      ⟨body, hfront, hbody, hnil | ⟨t, hline⟩⟩ | ⟨body, hfront, hbody⟩
                    · rw [hnil, List.append_nil] at hsplit
                      rw [hnil, lexFrom_nil, ← hsplit]
                      exact .done (.inr ⟨body, hfront, hbody⟩) _
                    · -- the line break behind the comment belongs to it
                      rw [hline] at hsplit hlength ⊢
                      rw [lexFrom_blank (by decide), Nat.add_assoc, ← hsplit]
                      have hbehind := ih t.length (Nat.lt_of_succ_lt hlength)
                        (offset + (byteLength (Lexeme.front c s) + '\n'.utf8Size)) t rfl
                      have hskip := Tiles.skip (p := Lexeme.front c s ++ ['\n'])
                        (fun u hu => by
                          rw [hfront, List.append_assoc]
                          exact .line hbody hu)
                        (by simpa using hbehind)
                      rwa [List.append_assoc] at hskip
                    · rw [← hsplit]
                      refine hrest.skip fun u hu => ?_
                      rw [hfront, List.append_assoc]
                      exact .block hbody hu
            | unexpected =>
                rw [lexFrom_unexpected hp, ← hsplit]
                exact hrest.unexpected hx c
            | _ =>
                obtain ⟨r, hr, heq⟩ := exists_lexFrom_token (by rw [hp]; trivial) offset
                rw [heq, ← hsplit]
                exact hrest.token hx hr

theorem pairwise_before_tokenSpans (source : List Char) :
    (lex source).tokenSpans.Pairwise Span.Before := by
  obtain ⟨spans, htiled, htokens, -, -⟩ := tiles_lexFrom 0 source
  exact htiled.pairwise_before.sublist htokens

/-- A token marks the end of the text, or it is what a lexeme contributes. -/
theorem exists_lexeme_of_mem_lexFrom {offset : Nat} {source : List Char} {token : Token}
    (h : token ∈ (lexFrom offset source).tokens) :
    (token.kind = .eof ∧ token.span.Holds offset source []) ∨
      ∃ c s errors, token.span.Holds offset source (Lexeme.front c s) ∧
        Lexeme.evaluate (Lexeme.scan c s).1 (Lexeme.front c s) token.span =
          (some token.kind, errors) ∧
        ∀ d ∈ errors, d ∈ (lexFrom offset source).diagnostics := by
  induction offset, source using lexeme_induction with
  | nil offset =>
      rw [lexFrom_nil] at h
      obtain rfl := List.mem_singleton.1 h
      exact .inl ⟨rfl, [], [], rfl, rfl, rfl⟩
  | cons offset c s ih =>
      have hsplit := Lexeme.front_append_rest c s
      rcases heval : Lexeme.evaluate (Lexeme.scan c s).1 (Lexeme.front c s)
        ⟨offset, offset + byteLength (Lexeme.front c s)⟩ with ⟨kind, errors⟩
      rw [lexFrom_cons rfl heval] at h ⊢
      obtain h | h := List.mem_append.1 h
      · obtain ⟨k, rfl, rfl⟩ := Option.map_eq_some_iff.1 (Option.mem_toList.1 h)
        exact .inr ⟨c, s, errors, ⟨[], Lexeme.rest c s, hsplit.symm, rfl, rfl⟩, heval,
          fun d hd => List.mem_append_left _ hd⟩
      · obtain ⟨hend, hholds⟩ | ⟨x, t, faults, hholds, hlexeme, hfaults⟩ := ih h
        · exact .inl ⟨hend, hsplit ▸ hholds.behind⟩
        · exact .inr ⟨x, t, faults, hsplit ▸ hholds.behind, hlexeme,
            fun d hd => List.mem_append_right _ (hfaults d hd)⟩

/-! ### Every byte of a text -/

/-- What a result of lexing has to say about a text. -/
structure Lexed.AccountsFor (source : List Char) (out : Lexed) : Prop where
  ended : ∃ front, out.tokens = front ++ [⟨.eof, .point (byteLength source)⟩] ∧
    ∀ t ∈ front, t.kind ≠ .eof
  placed : ∀ s ∈ out.coveredSpans, s.start < s.stop ∧ ∃ text, s.Holds 0 source text
  apart : out.coveredSpans.Pairwise Span.Apart
  tokens_ordered : out.tokenSpans.Pairwise Span.Before
  unexpected_ordered : (out.reportedSpans ⟨2⟩).Pairwise Span.Before
  inner_gap : ∀ g text, Gap 0 source out.coveredSpans g text → g.stop ≠ byteLength source →
    Trivia text
  /-- Behind the last span there may be an unclosed comment, and just then it is reported. -/
  last_gap : ∀ g text, Gap 0 source out.coveredSpans g text → g.stop = byteLength source →
    ∃ t e, text = t ++ e ∧ Trivia t ∧
      (IsLastLine e ∧ out.reportedSpans ⟨6⟩ = [] ∨
        IsUnclosed e ∧ out.reportedSpans ⟨6⟩ = [⟨g.start + byteLength t, g.stop⟩])
  exists_last_gap : ∃ g text, Gap 0 source out.coveredSpans g text ∧ g.stop = byteLength source

/-- Lexing accounts for every byte of a text: tokens and unexpected characters take up stretches of
their own, in order, and what they leave is blanks, comments and at most one comment that is not
closed, at the end. -/
theorem accountsFor_lex (source : List Char) : (lex source).AccountsFor source := by
  obtain ⟨spans, htiled, htokens, hunexpected, hperm⟩ := tiles_lexFrom 0 source
  obtain ⟨front, hended, hfront⟩ := exists_tokens_lexFrom 0 source
  have hbefore := htiled.pairwise_before
  rw [Nat.zero_add] at hended
  have hgap : ∀ g text, Gap 0 source (lex source).coveredSpans g text ↔ Gap 0 source spans g text :=
    fun g text => Gap.congr fun s => hperm.mem_iff.symm
  refine ⟨⟨front, hended, hfront⟩, fun s hs => ?_, ?_, hbefore.sublist htokens,
    hbefore.sublist hunexpected, fun g text hg hstop => ?_, fun g text hg hstop => ?_, ?_⟩
  · have hs' : s ∈ spans := hperm.mem_iff.2 hs
    exact ⟨(htiled.within hs').2.1, htiled.holds hs'⟩
  · have hsymm : ∀ {s t : Span}, s.Apart t → t.Apart s := Or.symm
    exact (hperm.pairwise_iff hsymm).1 (hbefore.imp .inl)
  · exact (htiled.gap ((hgap g text).1 hg)).1 (by rwa [Nat.zero_add])
  · exact (htiled.gap ((hgap g text).1 hg)).2 (by rwa [Nat.zero_add])
  · obtain ⟨g, text, hg, hstop⟩ := htiled.exists_last_gap
    exact ⟨g, text, (hgap g text).2 hg, by rwa [Nat.zero_add] at hstop⟩

end Scriptlet
