import Scriptlet.Proofs.Parser.Words

namespace Scriptlet.Parser

/-!
# What becomes of a state

A parser moves on over tokens whether it succeeds or fails. Between the two states it passes no end,
the braces that it passes are in balance unless it has come to an end, and what it reports is about
tokens that can be seen from the first state. All of this composes along the binds of a parser.
-/

open Text (Span)

/-! ### Braces -/

def braceDepth (depth : Nat) : TokenKind → Option Nat
  | .mark .leftBrace => some (depth + 1)
  | .mark .rightBrace => if depth = 0 then none else some (depth - 1)
  | _ => some depth

/-- The number of braces that are open behind tokens if `depth` of them are open in front; none if a
brace is closed that is not open. -/
def openBraces (depth : Nat) (tokens : List Token) : Option Nat :=
  tokens.foldlM (fun d token => braceDepth d token.kind) depth

def IsBrace (k : TokenKind) : Prop :=
  k = .mark .leftBrace ∨ k = .mark .rightBrace

instance : DecidablePred IsBrace :=
  fun k => inferInstanceAs (Decidable (k = .mark .leftBrace ∨ k = .mark .rightBrace))

theorem not_isBrace_keyword (k : Keyword) : ¬IsBrace (.keyword k) := by
  rintro (h | h) <;> cases h

theorem not_isBrace_ident (name : String) : ¬IsBrace (.ident name) := by
  rintro (h | h) <;> cases h

theorem not_isBrace_literal (l : Tree.Literal) : ¬IsBrace l.token := by
  rcases l with _ | _ | _ | _ | (_ | _) | _ <;> rintro (h | h) <;> cases h

section

variable {depth d : Nat} {token : Token} {tokens read : List Token} {k : TokenKind}

theorem braceDepth_of_not_isBrace (h : ¬IsBrace k) : braceDepth depth k = some depth := by
  unfold braceDepth
  split
  · exact absurd (.inl rfl) h
  · exact absurd (.inr rfl) h
  · rfl

theorem openBraces_cons :
    openBraces depth (token :: tokens) =
      (braceDepth depth token.kind).bind fun d => openBraces d tokens := rfl

theorem openBraces_append :
    openBraces depth (read ++ tokens) =
      (openBraces depth read).bind fun d => openBraces d tokens := by
  unfold openBraces
  rw [List.foldlM_append]
  rfl

theorem openBraces_plain (h : ¬IsBrace token.kind) :
    openBraces depth (token :: tokens) = openBraces depth tokens := by
  rw [openBraces_cons, braceDepth_of_not_isBrace h]
  rfl

theorem openBraces_left (h : token.kind = .mark .leftBrace) :
    openBraces depth (token :: tokens) = openBraces (depth + 1) tokens := by
  rw [openBraces_cons, h]
  rfl

theorem openBraces_right (h : token.kind = .mark .rightBrace) :
    openBraces (depth + 1) (token :: tokens) = openBraces depth tokens := by
  rw [openBraces_cons, h]
  rfl

theorem openBraces_right_zero (h : token.kind = .mark .rightBrace) :
    openBraces 0 (token :: tokens) = none := by
  rw [openBraces_cons, h]
  rfl

/-- Further braces in front stay open. -/
theorem openBraces_add (h : openBraces depth tokens = some d) (more : Nat) :
    openBraces (depth + more) tokens = some (d + more) := by
  induction tokens generalizing depth with
  | nil =>
      obtain rfl := Option.some.inj h
      rfl
  | cons token tokens ih =>
      by_cases hleft : token.kind = .mark .leftBrace
      · rw [openBraces_left hleft] at h ⊢
        rw [Nat.add_right_comm]
        exact ih h
      by_cases hright : token.kind = .mark .rightBrace
      · cases depth with
        | zero =>
            rw [openBraces_right_zero hright] at h
            cases h
        | succ depth =>
            rw [openBraces_right hright] at h
            rw [Nat.add_right_comm, openBraces_right hright]
            exact ih h
      · have hplain : ¬IsBrace token.kind := fun hbrace => hbrace.elim hleft hright
        rw [openBraces_plain hplain] at h ⊢
        exact ih h

end

/-! ### Moving on -/

/-- The span of the last token read, or of one that can still be read. -/
def State.Sees (s : State) (p : Span) : Prop :=
  s.previous = some p ∨ ∃ token ∈ s.rest, token.span = p

/-- What an error can be about: a token, the place behind one, or the start of the text. -/
def State.Shows (s : State) (span : Span) : Prop :=
  span = .point 0 ∨ ∃ p, s.Sees p ∧ (span = p ∨ span = .point p.stop)

/-- The state in which something has been reported before. -/
def State.behind (front : List Diagnostic) (s : State) : State :=
  { s with diagnostics := front ++ s.diagnostics }

/-- The tokens between two states. -/
structure Crosses (read : List Token) (s t : State) : Prop where
  rest : s.rest = read ++ t.rest
  no_end : ∀ token ∈ read, token.kind ≠ .eof
  previous : t.previous = (read.getLast?.map Token.span).or s.previous

/-- A run has come from one state to another one. If it keeps to its level, the braces between the
states are in balance or the end has been reached. What it has reported are errors about what it
could see; if its bound is enough, none of them is about nesting that is too deep. -/
structure Moves (level enough : Prop) (s t : State) : Prop where
  crosses : ∃ read, Crosses read s t ∧
    (level → ∃ depth, openBraces 0 read = some depth ∧ (depth = 0 ∨ t.kind = .eof))
  reports : ∃ new, t.diagnostics = s.diagnostics ++ new ∧
    ∀ d ∈ new, (s.Shows d.span ∧ d.isError = true) ∧
      (enough → d.code ≠ SyntaxError.exhausted.code)

section

variable {s t u : State} {k : TokenKind} {read more : List Token} {p span : Span}
  {level enough level' enough' : Prop}

theorem kind_congr (h : s.rest = t.rest) : s.kind = t.kind := by
  unfold State.kind State.ahead
  rw [h]

theorem kind_of_rest {token : Token} {rest : List Token} (h : s.rest = token :: rest) :
    s.kind = token.kind := by
  unfold State.kind State.ahead
  rw [h]
  rfl

theorem advance_behind (front : List Diagnostic) (s : State) :
    (s.behind front).advance = s.advance.behind front := by
  obtain ⟨rest, previous, diagnostics⟩ := s
  cases rest with
  | nil => rfl
  | cons token rest =>
      unfold State.advance State.behind
      dsimp only
      split <;> rfl

theorem report_behind (front : List Diagnostic) (s : State) (f : SyntaxFailure) :
    (s.behind front).report f = (s.report f).behind front := by
  unfold State.report State.behind
  rw [List.append_assoc]

theorem shows_span (s : State) : s.Shows s.span := by
  unfold State.span
  split
  · next token rest hrest =>
      exact .inr ⟨token.span, .inr ⟨token, hrest ▸ List.mem_cons_self, rfl⟩, .inl rfl⟩
  · exact .inl rfl

theorem shows_gap (s : State) : s.Shows s.gap := by
  unfold State.gap
  split
  · next p hp => exact .inr ⟨p, .inl hp, .inr rfl⟩
  · exact shows_span s

namespace Crosses

theorem refl (s : State) : Crosses [] s s :=
  ⟨rfl, fun _ h => absurd h List.not_mem_nil, rfl⟩

theorem trans (h : Crosses read s t) (h' : Crosses more t u) : Crosses (read ++ more) s u where
  rest := by rw [h.rest, h'.rest, List.append_assoc]
  no_end token htoken := (List.mem_append.1 htoken).elim (h.no_end token) (h'.no_end token)
  previous := by
    rw [h'.previous, h.previous, List.getLast?_append]
    cases more.getLast? <;> rfl

theorem advance (hk : s.kind = k) (hend : k ≠ .eof) :
    ∃ token, token.kind = k ∧ Crosses [token] s s.advance := by
  obtain ⟨token, rest, hrest, hkind, hadvance⟩ := exists_token hk hend
  refine ⟨token, hkind, ?_, fun x hx => ?_, ?_⟩
  · rw [hrest, hadvance]
    rfl
  · rw [List.mem_singleton.1 hx, hkind]
    exact hend
  · rw [hadvance]
    rfl

theorem length_eq (h : Crosses read s t) : s.rest.length = read.length + t.rest.length := by
  rw [h.rest, List.length_append]

theorem eq_nil_of_eof (h : Crosses read s t) (hend : s.kind = .eof) : read = [] := by
  cases read with
  | nil => rfl
  | cons token read =>
      have hk := kind_of_rest h.rest
      exact absurd (hk.symm.trans hend) (h.no_end token List.mem_cons_self)

theorem sees (h : Crosses read s t) (hp : t.Sees p) : s.Sees p := by
  obtain hp | ⟨token, htoken, rfl⟩ := hp
  · rw [h.previous] at hp
    cases hlast : read.getLast? with
    | none =>
        rw [hlast] at hp
        exact .inl hp
    | some token =>
        rw [hlast] at hp
        have hmem : token ∈ s.rest := by
          rw [h.rest]
          exact List.mem_append_left _ (List.mem_of_getLast? hlast)
        exact .inr ⟨token, hmem, Option.some.inj hp⟩
  · refine .inr ⟨token, ?_, rfl⟩
    rw [h.rest]
    exact List.mem_append_right _ htoken

theorem shows (h : Crosses read s t) (hspan : t.Shows span) : s.Shows span := by
  obtain hspan | ⟨p, hp, hspan⟩ := hspan
  · exact .inl hspan
  · exact .inr ⟨p, h.sees hp, hspan⟩

end Crosses

theorem length_advance_lt (hk : s.kind = k) (hend : k ≠ .eof) :
    s.advance.rest.length < s.rest.length := by
  obtain ⟨token, -, hcrosses⟩ := Crosses.advance hk hend
  rw [hcrosses.length_eq, List.length_singleton]
  exact Nat.lt_add_of_pos_left Nat.one_pos

namespace Moves

theorem of_crosses (h : Crosses read s t) (hlevel : openBraces 0 read = some 0)
    (hreports : t.diagnostics = s.diagnostics) : Moves level enough s t where
  crosses := ⟨read, h, fun _ => ⟨0, hlevel, .inl rfl⟩⟩
  reports := ⟨[], by rw [hreports, List.append_nil], fun _ hd => absurd hd List.not_mem_nil⟩

theorem refl (s : State) : Moves level enough s s :=
  of_crosses (.refl s) rfl rfl

theorem advance (hk : s.kind = k) (hbrace : ¬IsBrace k) (hend : k ≠ .eof) :
    Moves level enough s s.advance := by
  obtain ⟨token, rfl, hcrosses⟩ := Crosses.advance hk hend
  exact of_crosses hcrosses (openBraces_plain hbrace) (diagnostics_advance s)

/-- Without a look at the braces any token may be read. -/
theorem free_advance (s : State) : Moves False enough s s.advance := by
  by_cases hend : s.kind = .eof
  · have heq : s.advance = s := by
      obtain ⟨rest, previous, diagnostics⟩ := s
      cases rest with
      | nil => rfl
      | cons token rest => exact if_pos hend
    rw [heq]
    exact .refl s
  · obtain ⟨token, -, hcrosses⟩ := Crosses.advance rfl hend
    exact ⟨⟨_, hcrosses, False.elim⟩, [], by rw [diagnostics_advance, List.append_nil],
      fun _ hd => absurd hd List.not_mem_nil⟩

theorem trans (h : Moves level enough s t) (h' : Moves level enough t u) :
    Moves level enough s u where
  crosses := by
    obtain ⟨read, hread, hdepth⟩ := h.crosses
    obtain ⟨more, hmore, hdepth'⟩ := h'.crosses
    refine ⟨read ++ more, hread.trans hmore, fun hlevel => ?_⟩
    obtain ⟨depth, hopen, rfl | hend⟩ := hdepth hlevel
    · obtain ⟨depth', hopen', hdepth'⟩ := hdepth' hlevel
      exact ⟨depth', by rw [openBraces_append, hopen, Option.bind_some, hopen'], hdepth'⟩
    · -- behind the end nothing has been read
      obtain rfl := hmore.eq_nil_of_eof hend
      refine ⟨depth, by rw [List.append_nil, hopen], .inr ?_⟩
      rw [← kind_congr (s := t) (by rw [hmore.rest, List.nil_append])]
      exact hend
  reports := by
    obtain ⟨read, hread, -⟩ := h.crosses
    obtain ⟨new, hnew, hshows⟩ := h.reports
    obtain ⟨new', hnew', hshows'⟩ := h'.reports
    refine ⟨new ++ new', by rw [hnew', hnew, List.append_assoc], fun d hd => ?_⟩
    obtain hd | hd := List.mem_append.1 hd
    · exact hshows d hd
    · obtain ⟨⟨hspan, herror⟩, hcode⟩ := hshows' d hd
      exact ⟨⟨hread.shows hspan, herror⟩, hcode⟩

theorem mono (h : Moves level enough s t) (hlevel : level' → level) (henough : enough' → enough) :
    Moves level' enough' s t := by
  obtain ⟨read, hread, hdepth⟩ := h.crosses
  obtain ⟨new, hnew, hshows⟩ := h.reports
  exact ⟨⟨read, hread, fun hl => hdepth (hlevel hl)⟩,
    ⟨new, hnew, fun d hd => ⟨(hshows d hd).1, fun he => (hshows d hd).2 (henough he)⟩⟩⟩

theorem shows (h : Moves level enough s t) (hspan : t.Shows span) : s.Shows span := by
  obtain ⟨read, hread, -⟩ := h.crosses
  exact hread.shows hspan

theorem length_le (h : Moves level enough s t) : t.rest.length ≤ s.rest.length := by
  obtain ⟨read, hread, -⟩ := h.crosses
  rw [hread.length_eq]
  exact Nat.le_add_left _ _

/-- Either something has been read, or the same tokens are still to be read. -/
theorem length_lt_or_rest_eq (h : Moves level enough s t) :
    t.rest.length < s.rest.length ∨ t.rest = s.rest := by
  obtain ⟨read, hread, -⟩ := h.crosses
  cases read with
  | nil => exact .inr hread.rest.symm
  | cons token read =>
      have hlength := hread.length_eq
      rw [List.length_cons] at hlength
      exact .inl (by omega)

theorem report (h : Moves level enough s t) {f : SyntaxFailure} (hspan : s.Shows f.span)
    (herror : enough → f.error.code ≠ SyntaxError.exhausted.code) :
    Moves level enough s (t.report f) := by
  obtain ⟨read, hread, hdepth⟩ := h.crosses
  obtain ⟨new, hnew, hshows⟩ := h.reports
  refine ⟨⟨read, ⟨hread.rest, hread.no_end, hread.previous⟩, hdepth⟩, new ++ [f.diagnostic], ?_, ?_⟩
  · rw [State.report, hnew, List.append_assoc]
  · intro d hd
    obtain hd | hd := List.mem_append.1 hd
    · exact hshows d hd
    · obtain rfl := List.mem_singleton.1 hd
      exact ⟨⟨hspan, rfl⟩, herror⟩

end Moves

end

end Scriptlet.Parser
