import Scriptlet.Proofs.Parser.Lists
import Scriptlet.Proofs.Parser.Moves

namespace Scriptlet.Parser

/-!
# Skipping

What is skipped behind an error. A loop that skips reads one token after the other, counts the braces
that it has passed, and stops where none of them is open.
-/

open Text (Span)

/-- A loop that skips tokens. It stops in front of a token, it stops behind one, or it goes on behind
one; it never stops while a brace that it has passed is open, except at the end. -/
structure IsSkip (skip : Nat → Option Span → List Token → List Token × Option Span) : Prop where
  nil : ∀ depth previous, skip depth previous [] = ([], previous)
  cons : ∀ depth previous token rest,
    skip depth previous (token :: rest) = (token :: rest, previous) ∧
        (token.kind = .eof ∨ token.kind = .mark .rightBrace ∧ depth = 0) ∨
      token.kind ≠ .eof ∧
        (skip depth previous (token :: rest) = (rest, some token.span) ∧
            braceDepth depth token.kind = some 0 ∨
          ∃ d, skip depth previous (token :: rest) = skip d (some token.span) rest ∧
            braceDepth depth token.kind = some d)

theorem isSkip_skipStatement : IsSkip skipStatement where
  nil _ _ := rfl
  cons depth previous token rest := by
    rw [skipStatement]
    split
    · next hk => exact .inl ⟨rfl, .inl hk⟩
    · next hk => exact .inr ⟨hk ▸ TokenKind.noConfusion, .inr ⟨_, rfl, by rw [hk, braceDepth]⟩⟩
    · next hk =>
        split
        · next hzero => exact .inl ⟨rfl, .inr ⟨hk, hzero⟩⟩
        · next hpos =>
            refine .inr ⟨hk ▸ TokenKind.noConfusion, .inr ⟨_, rfl, ?_⟩⟩
            rw [hk, braceDepth, if_neg hpos]
    · next hk =>
        refine .inr ⟨hk ▸ TokenKind.noConfusion, ?_⟩
        split
        · next hzero => exact .inl ⟨rfl, by rw [hk, hzero, braceDepth_of_not_isBrace (by decide)]⟩
        · exact .inr ⟨_, rfl, by rw [hk, braceDepth_of_not_isBrace (by decide)]⟩
    · next heof hleft hright _ =>
        refine .inr ⟨heof, .inr ⟨_, rfl, braceDepth_of_not_isBrace fun hbrace => ?_⟩⟩
        exact hbrace.elim hleft hright

theorem isSkip_skipMember : IsSkip skipMember where
  nil _ _ := rfl
  cons depth previous token rest := by
    rw [skipMember]
    split
    · next hk => exact .inl ⟨rfl, .inl hk⟩
    · next hk => exact .inr ⟨hk ▸ TokenKind.noConfusion, .inr ⟨_, rfl, by rw [hk, braceDepth]⟩⟩
    · next hk =>
        split
        · next hzero => exact .inl ⟨rfl, .inr ⟨hk, hzero⟩⟩
        · next hpos =>
            refine .inr ⟨hk ▸ TokenKind.noConfusion, ?_⟩
            rw [hk, braceDepth, if_neg hpos]
            split
            · next hone => exact .inl ⟨rfl, by rw [hone]⟩
            · exact .inr ⟨_, rfl, rfl⟩
    · next hk =>
        refine .inr ⟨hk ▸ TokenKind.noConfusion, ?_⟩
        split
        · next hzero => exact .inl ⟨rfl, by rw [hk, hzero, braceDepth_of_not_isBrace (by decide)]⟩
        · exact .inr ⟨_, rfl, by rw [hk, braceDepth_of_not_isBrace (by decide)]⟩
    · next heof hleft hright _ =>
        refine .inr ⟨heof, .inr ⟨_, rfl, braceDepth_of_not_isBrace fun hbrace => ?_⟩⟩
        exact hbrace.elim hleft hright

/-- The tokens that a loop has skipped. -/
structure Skipped (depth : Nat) (read tokens : List Token) (previous : Option Span)
    (result : List Token × Option Span) : Prop where
  tokens_eq : tokens = read ++ result.1
  no_end : ∀ token ∈ read, token.kind ≠ .eof
  previous_eq : result.2 = (read.getLast?.map Token.span).or previous
  balanced : ∃ d, openBraces depth read = some d ∧
    (d = 0 ∨ ∀ s : State, s.rest = result.1 → s.kind = .eof)

namespace IsSkip

variable {skip : Nat → Option Span → List Token → List Token × Option Span}

theorem exists_skipped (h : IsSkip skip) (depth : Nat) (previous : Option Span)
    (tokens : List Token) :
    ∃ read, Skipped depth read tokens previous (skip depth previous tokens) := by
  have hnil (x : Token) (hx : x ∈ ([] : List Token)) : x.kind ≠ .eof := absurd hx List.not_mem_nil
  induction tokens generalizing depth previous with
  | nil =>
      rw [h.nil]
      refine ⟨[], rfl, hnil, rfl, depth, rfl, .inr fun s hs => ?_⟩
      unfold State.kind State.ahead
      rw [hs]
      rfl
  | cons token rest ih =>
      have hone (hend : token.kind ≠ .eof) (x : Token) (hx : x ∈ [token]) : x.kind ≠ .eof :=
        List.mem_singleton.1 hx ▸ hend
      obtain ⟨heq, hstop⟩ | ⟨hend, ⟨heq, hdepth⟩ | ⟨d, heq, hdepth⟩⟩ :=
        h.cons depth previous token rest
      · rw [heq]
        refine ⟨[], rfl, hnil, rfl, depth, rfl, ?_⟩
        obtain hend | ⟨-, hzero⟩ := hstop
        · exact .inr fun s hs => (kind_of_rest hs).trans hend
        · exact .inl hzero
      · rw [heq]
        refine ⟨[token], rfl, hone hend, rfl, 0, ?_, .inl rfl⟩
        rw [openBraces_cons, hdepth]
        rfl
      · obtain ⟨read, hread⟩ := ih d (some token.span)
        rw [heq]
        refine ⟨token :: read, ?_, ?_, ?_, ?_⟩
        · rw [List.cons_append, ← hread.tokens_eq]
        · exact List.forall_mem_cons.2 ⟨hend, hread.no_end⟩
        · rw [hread.previous_eq, List.getLast?_cons]
          cases read.getLast? <;> rfl
        · obtain ⟨d', hopen, hstop⟩ := hread.balanced
          exact ⟨d', by rw [openBraces_cons, hdepth, Option.bind_some, hopen], hstop⟩

/-- Where the loop does not stop in front of the first token, it reads it. -/
theorem length_lt (h : IsSkip skip) (previous : Option Span) {token : Token} (rest : List Token)
    (hend : token.kind ≠ .eof) (hright : token.kind ≠ .mark .rightBrace) :
    (skip 0 previous (token :: rest)).1.length < (token :: rest).length := by
  obtain ⟨-, hstop | ⟨hstop, -⟩⟩ | ⟨-, ⟨heq, -⟩ | ⟨d, heq, -⟩⟩ := h.cons 0 previous token rest
  · exact absurd hstop hend
  · exact absurd hstop hright
  · rw [heq]
    exact Nat.lt_succ_self _
  · obtain ⟨read, hread⟩ := h.exists_skipped d (some token.span) rest
    have hlength := congrArg List.length hread.tokens_eq
    rw [List.length_append] at hlength
    rw [heq, List.length_cons]
    omega

end IsSkip

section

variable {level enough : Prop} {s : State}

theorem Skipped.moves {read : List Token} {result : List Token × Option Span}
    (h : Skipped 0 read s.rest s.previous result) :
    Moves level enough s ⟨result.1, result.2, s.diagnostics⟩ where
  crosses := by
    refine ⟨read, ⟨h.tokens_eq, h.no_end, h.previous_eq⟩, fun _ => ?_⟩
    obtain ⟨d, hopen, hstop⟩ := h.balanced
    exact ⟨d, hopen, hstop.imp_right fun hend => hend _ rfl⟩
  reports := ⟨[], (List.append_nil _).symm, fun _ hd => absurd hd List.not_mem_nil⟩

/-- A way to go on behind an error, which does not depend on what has been reported. -/
structure Skips (level enough : Prop) (skip : State → State) : Prop where
  moves (s : State) : Moves level enough s (skip s)
  behind (front : List Diagnostic) (s : State) : skip (s.behind front) = (skip s).behind front

theorem skips_skipStatement : Skips level enough State.skipStatement where
  moves s := by
    obtain ⟨read, hread⟩ := isSkip_skipStatement.exists_skipped 0 s.previous s.rest
    exact hread.moves
  behind _ _ := rfl

theorem skips_skipMember : Skips level enough State.skipMember where
  moves s := by
    obtain ⟨read, hread⟩ := isSkip_skipMember.exists_skipped 0 s.previous s.rest
    exact hread.moves
  behind _ _ := rfl

theorem atClose_eq_false_iff :
    s.atClose = false ↔ s.kind ≠ .mark .rightBrace ∧ s.kind ≠ .eof := by
  rw [State.atClose, Bool.or_eq_false_iff, ← Bool.not_eq_true, ← Bool.not_eq_true, atMark_iff,
    atEnd_iff]

theorem atEnd_congr {t : State} (h : s.rest = t.rest) : s.atEnd = t.atEnd := by
  unfold State.atEnd
  rw [kind_congr h]

theorem atClose_congr {t : State} (h : s.rest = t.rest) : s.atClose = t.atClose := by
  unfold State.atClose State.atMark
  rw [kind_congr h, atEnd_congr h]

/-- In balance nothing begins with a closing brace. -/
theorem Moves.atClose_eq_false {t : State} (h : Moves True enough s t)
    (hlt : t.rest.length < s.rest.length) : s.atClose = false := by
  obtain ⟨read, hread, hdepth⟩ := h.crosses
  obtain ⟨depth, hopen, -⟩ := hdepth trivial
  cases read with
  | nil =>
      rw [hread.length_eq, List.length_nil] at hlt
      omega
  | cons token read =>
      have hkind := kind_of_rest hread.rest
      rw [atClose_eq_false_iff, hkind]
      refine ⟨fun hright => ?_, hread.no_end token List.mem_cons_self⟩
      rw [openBraces_right_zero hright] at hopen
      cases hopen

theorem exists_cons_of_kind_ne (h : s.kind ≠ .eof) :
    ∃ token rest, s.rest = token :: rest ∧ token.kind = s.kind := by
  obtain ⟨token, rest, hrest, hkind, -⟩ := exists_token rfl h
  exact ⟨token, rest, hrest, hkind⟩

theorem length_skipStatement_lt (h : s.atClose = false) :
    s.skipStatement.rest.length < s.rest.length := by
  obtain ⟨hright, hend⟩ := atClose_eq_false_iff.1 h
  obtain ⟨token, rest, hrest, hkind⟩ := exists_cons_of_kind_ne hend
  have hlt := isSkip_skipStatement.length_lt s.previous rest (hkind ▸ hend)
    (hkind ▸ hright)
  rw [← hrest] at hlt
  exact hlt

theorem length_skipMember_lt (h : s.atClose = false) :
    s.skipMember.rest.length < s.rest.length := by
  obtain ⟨hright, hend⟩ := atClose_eq_false_iff.1 h
  obtain ⟨token, rest, hrest, hkind⟩ := exists_cons_of_kind_ne hend
  have hlt := isSkip_skipMember.length_lt s.previous rest (hkind ▸ hend) (hkind ▸ hright)
  rw [← hrest] at hlt
  exact hlt

/-- The loop to the next class stops in front of a token or goes on behind it. -/
theorem skipToClass_cons (previous : Option Span) (token : Token) (rest : List Token) :
    skipToClass previous (token :: rest) = (token :: rest, previous) ∨
      token.kind ≠ .eof ∧
        skipToClass previous (token :: rest) = skipToClass (some token.span) rest := by
  rw [skipToClass]
  split
  · exact .inl rfl
  · exact .inl rfl
  · next hend _ =>
      split
      · exact .inl rfl
      · exact .inr ⟨hend, rfl⟩

theorem exists_skipped_skipToClass (previous : Option Span) (tokens : List Token) :
    ∃ read, tokens = read ++ (skipToClass previous tokens).1 ∧
      (∀ token ∈ read, token.kind ≠ .eof) ∧
      (skipToClass previous tokens).2 = (read.getLast?.map Token.span).or previous := by
  have hnil (x : Token) (hx : x ∈ ([] : List Token)) : x.kind ≠ .eof := absurd hx List.not_mem_nil
  induction tokens generalizing previous with
  | nil => exact ⟨[], rfl, hnil, rfl⟩
  | cons token rest ih =>
      obtain heq | ⟨hend, heq⟩ := skipToClass_cons previous token rest
      · rw [heq]
        exact ⟨[], rfl, hnil, rfl⟩
      · obtain ⟨read, htokens, hread, hprevious⟩ := ih (some token.span)
        rw [heq]
        refine ⟨token :: read, ?_, List.forall_mem_cons.2 ⟨hend, hread⟩, ?_⟩
        · rw [List.cons_append, ← htokens]
        · rw [hprevious, List.getLast?_cons]
          cases read.getLast? <;> rfl

/-- Braces are not counted on the way to the next class. -/
theorem skips_skipToClass : Skips False enough State.skipToClass where
  moves s := by
    obtain ⟨read, htokens, hread, hprevious⟩ :=
      exists_skipped_skipToClass s.advance.previous s.advance.rest
    refine (Moves.free_advance s).trans ⟨⟨read, ⟨htokens, hread, hprevious⟩, False.elim⟩, [], ?_,
      fun _ hd => absurd hd List.not_mem_nil⟩
    exact (List.append_nil _).symm
  behind front s := by
    unfold State.skipToClass
    rw [advance_behind]
    rfl

theorem length_skipToClass_lt (h : s.atEnd = false) :
    s.skipToClass.rest.length < s.rest.length := by
  have hend : s.kind ≠ .eof := fun hk => Bool.false_ne_true (h.symm.trans (atEnd_iff.2 hk))
  obtain ⟨token, -, hcrosses⟩ := Crosses.advance rfl hend
  have hlength := hcrosses.length_eq
  obtain ⟨read, htokens, -⟩ := exists_skipped_skipToClass s.advance.previous s.advance.rest
  have hle := congrArg List.length htokens
  rw [List.length_append] at hle
  change (skipToClass s.advance.previous s.advance.rest).1.length < s.rest.length
  rw [List.length_singleton] at hlength
  omega

end

end Scriptlet.Parser
