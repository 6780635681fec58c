import Scriptlet.Proofs.Parser.Moves

namespace Scriptlet.Parser

/-!
# Outcomes

What two parsers come to from a state, where they come to the same. The rules follow the ways in
which parsers are put together, so the outcome of a production is that of its parts.
-/

open Text (Span)

/-- The parser fails with an error, in a state. -/
def Fails {α : Type} (p : Parser α) (s : State) (f : SyntaxFailure) (s' : State) : Prop :=
  p.run.run s = (.error f, s')

/-- Two parsers come to the same from a state, whatever has been reported before: both succeed with
what is expected, or both fail with an error about a token that they have seen. If the bound is
enough, nesting is not too deep. -/
structure Outcome {α : Type} (level enough : Prop) (x y : Parser α) (s : State)
    (expected : α → State → Prop) : Prop where
  same : ∀ front, y.run.run (s.behind front) = ((x.run.run s).1, (x.run.run s).2.behind front)
  reads : ∀ {a t}, Reads x s a t → Moves level enough s t ∧ expected a t
  fails : ∀ {f t}, Fails x s f t →
    Moves level enough s t ∧ s.Shows f.span ∧ (enough → f.error ≠ .exhausted)

section

variable {α β : Type} {x y : Parser α} {f g : α → Parser β} {s s' t : State} {e : SyntaxFailure}

theorem fails_bind_iff :
    Fails (x >>= f) s e s' ↔ Fails x s e s' ∨ ∃ a t, Reads x s a t ∧ Fails (f a) t e s' := by
  unfold Fails Reads
  rw [run_bind]
  rcases x.run.run s with ⟨e' | a, t⟩
  · constructor
    · intro h
      cases h
      exact .inl rfl
    · rintro (h | ⟨a, t, h, -⟩)
      · cases h
        rfl
      · cases h
  · constructor
    · intro h
      exact .inr ⟨a, t, rfl, h⟩
    · rintro (h | ⟨a, t, h, h'⟩)
      · cases h
      · cases h
        exact h'

theorem fails_expect {m : Mark} (h : s.kind ≠ .mark m) :
    Fails (expect m) s ⟨.expected m.spelling (isClosing m && s.atEnd), s.gap⟩ s := by
  have hrun : (expect m).run.run s = (if s.atMark m then advance
    else fail (.expected m.spelling (isClosing m && s.atEnd)) s.gap : Parser Unit).run.run s := rfl
  unfold Fails
  rw [hrun, if_neg (mt atMark_iff.1 h)]
  rfl

theorem eq_of_fails_fail {error : SyntaxError} {span : Span}
    (h : Fails (fail error span : Parser α) s e s') : e = ⟨error, span⟩ ∧ s' = s := by
  cases h
  exact ⟨rfl, rfl⟩

end

namespace Outcome

variable {α β : Type} {level enough level' enough' : Prop} {x y : Parser α} {f g : α → Parser β}
  {s t : State} {P Q : α → State → Prop} {R : β → State → Prop} {m : Mark} {k : TokenKind}

theorem run_eq (h : Outcome level enough x y s Q) : y.run.run s = x.run.run s :=
  h.same []

theorem imp (h : Outcome level enough x y s P) (hPQ : ∀ {a t}, P a t → Q a t) :
    Outcome level enough x y s Q where
  same := h.same
  reads hread := ⟨(h.reads hread).1, hPQ (h.reads hread).2⟩
  fails := h.fails

theorem and (h : Outcome level enough x y s P) (h' : Outcome level enough x y s Q) :
    Outcome level enough x y s fun a t => P a t ∧ Q a t where
  same := h.same
  reads hread := ⟨(h.reads hread).1, (h.reads hread).2, (h'.reads hread).2⟩
  fails := h.fails

theorem mono (h : Outcome level enough x y s Q) (hlevel : level' → level)
    (henough : enough' → enough) : Outcome level' enough' x y s Q where
  same := h.same
  reads hread := ⟨(h.reads hread).1.mono hlevel henough, (h.reads hread).2⟩
  fails hfail :=
    have ⟨hmoves, hshows, herror⟩ := h.fails hfail
    ⟨hmoves.mono hlevel henough, hshows, fun he => herror (henough he)⟩

theorem le (h : Outcome level enough x y s Q) :
    Outcome level enough x y s fun a t => t.rest.length ≤ s.rest.length ∧ Q a t where
  same := h.same
  reads hread := ⟨(h.reads hread).1, (h.reads hread).1.length_le, (h.reads hread).2⟩
  fails := h.fails

/-- An outcome without a look at the braces keeps what is known of them. -/
theorem free (h : Outcome level enough x y s Q) :
    Outcome False enough x y s fun a t => Moves level enough s t ∧ Q a t where
  same := h.same
  reads hread := ⟨(h.reads hread).1.mono False.elim id, (h.reads hread).1, (h.reads hread).2⟩
  fails hfail := ⟨(h.fails hfail).1.mono False.elim id, (h.fails hfail).2⟩

theorem pure {a : α} (h : Q a s) : Outcome level enough (pure a) (pure a) s Q where
  same _ := rfl
  reads hread := by
    obtain ⟨rfl, rfl⟩ := reads_pure_iff.1 hread
    exact ⟨.refl s, h⟩
  fails hfail := by cases hfail

theorem fail {error : SyntaxError} {span : Span} (herror : error ≠ .exhausted)
    (hshows : s.Shows span) : Outcome level enough (fail error span) (fail error span) s Q where
  same _ := rfl
  reads hread := absurd hread not_reads_fail
  fails hfail := by
    obtain ⟨rfl, rfl⟩ := eq_of_fails_fail hfail
    exact ⟨.refl _, hshows, fun _ => herror⟩

theorem bind (hx : Outcome level enough x y s Q)
    (hf : ∀ {a t}, Moves level enough s t → Q a t → Outcome level enough (f a) (g a) t R) :
    Outcome level enough (x >>= f) (y >>= g) s R where
  same front := by
    rw [run_bind, run_bind, hx.same]
    rcases hrun : x.run.run s with ⟨e | a, t⟩
    · rfl
    · obtain ⟨hmoves, hQ⟩ := hx.reads hrun
      exact (hf hmoves hQ).same front
  reads hread := by
    obtain ⟨a, t, ha, hread⟩ := reads_bind_iff.1 hread
    obtain ⟨hmoves, hQ⟩ := hx.reads ha
    obtain ⟨hmoves', hR⟩ := (hf hmoves hQ).reads hread
    exact ⟨hmoves.trans hmoves', hR⟩
  fails hfail := by
    obtain hfail | ⟨a, t, ha, hfail⟩ := fails_bind_iff.1 hfail
    · exact hx.fails hfail
    · obtain ⟨hmoves, hQ⟩ := hx.reads ha
      obtain ⟨hmoves', hshows, herror⟩ := (hf hmoves hQ).fails hfail
      exact ⟨hmoves.trans hmoves', hmoves.shows hshows, herror⟩

/-- Nothing follows what fails. -/
theorem stop (h : Outcome level enough x y s fun _ _ => False) :
    Outcome level enough (x >>= f) (y >>= g) s R :=
  h.bind fun _ h => h.elim

/-- An outcome is about runs. -/
theorem congr (h : Outcome level enough x x s Q)
    (hrun : ∀ front, y.run.run (s.behind front) = x.run.run (s.behind front)) :
    Outcome level enough x y s Q where
  same front := (hrun front).trans (h.same front)
  reads := h.reads
  fails := h.fails

/-- What follows must not look at what has been reported. -/
theorem get_bind {f g : State → Parser β} (hblind : ∀ front, g (s.behind front) = g s)
    (h : Outcome level enough (f s) (g s) s R) :
    Outcome level enough (get >>= f) (get >>= g) s R where
  same front := by
    have hrun : (get >>= g).run.run (s.behind front) =
        (g (s.behind front)).run.run (s.behind front) := rfl
    rw [hrun, hblind]
    exact h.same front
  reads hread := h.reads (reads_get_bind_iff.1 hread)
  fails hfail := h.fails hfail

theorem ite {c : Prop} [Decidable c] {x' y' : Parser α} (h : c → Outcome level enough x y s Q)
    (h' : ¬c → Outcome level enough x' y' s Q) :
    Outcome level enough (if c then x else x') (if c then y else y') s Q := by
  by_cases hc : c
  · rw [if_pos hc, if_pos hc]
    exact h hc
  · rw [if_neg hc, if_neg hc]
    exact h' hc

theorem advance (hk : s.kind = k) (hbrace : ¬IsBrace k) (hend : k ≠ .eof) :
    Outcome level enough advance advance s fun _ t => t = s.advance ∧
      t.rest.length < s.rest.length where
  same front := congrArg (Prod.mk _) (advance_behind front s)
  reads hread := by
    obtain rfl := reads_advance_iff.1 hread
    exact ⟨.advance hk hbrace hend, rfl, length_advance_lt hk hend⟩
  fails hfail := by cases hfail

theorem advance_bind {f g : Unit → Parser β} (hk : s.kind = k) (hbrace : ¬IsBrace k)
    (hend : k ≠ .eof) (h : s.advance.rest.length < s.rest.length →
      Outcome level enough (f ()) (g ()) s.advance R) :
    Outcome level enough (Parser.advance >>= f) (Parser.advance >>= g) s R :=
  (advance hk hbrace hend).bind fun _ ⟨ht, hlength⟩ => by
    subst ht
    exact h hlength

theorem failHere {error : SyntaxError} (herror : error ≠ .exhausted) :
    Outcome level enough (failHere error) (failHere error) s Q :=
  get_bind (fun _ => rfl) (fail herror (shows_span s))

theorem expect (hbrace : ¬IsBrace (.mark m)) :
    Outcome level enough (expect m) (expect m) s fun _ t => t.rest.length < s.rest.length := by
  unfold Parser.expect
  refine get_bind (fun _ => rfl) (ite (fun hm => ?_) fun _ => ?_)
  · exact (advance (atMark_iff.1 hm) hbrace TokenKind.noConfusion).imp fun h => h.2
  · exact fail SyntaxError.noConfusion (shows_gap s)

/-- Without a look at the braces any mark may be required. -/
theorem expect_free :
    Outcome False enough (Parser.expect m) (Parser.expect m) s
      fun _ t => t.rest.length < s.rest.length := by
  unfold Parser.expect
  refine get_bind (fun _ => rfl) (ite (fun hm => ?_) fun _ => ?_)
  · refine ⟨fun front => congrArg (Prod.mk _) (advance_behind front s), fun hread => ?_,
      fun hfail => by cases hfail⟩
    obtain rfl := reads_advance_iff.1 hread
    exact ⟨.free_advance s, length_advance_lt (atMark_iff.1 hm) TokenKind.noConfusion⟩
  · exact fail SyntaxError.noConfusion (shows_gap s)

theorem expectKeyword {k : Keyword} :
    Outcome level enough (expectKeyword k) (expectKeyword k) s
      fun _ t => t.rest.length < s.rest.length := by
  unfold Parser.expectKeyword
  refine get_bind (fun _ => rfl) (ite (fun hk => ?_) fun _ => ?_)
  · have hend : TokenKind.keyword k ≠ .eof := TokenKind.noConfusion
    exact (advance (atKeyword_iff.1 hk) (not_isBrace_keyword k) hend).imp fun h => h.2
  · exact fail SyntaxError.noConfusion (shows_gap s)

theorem accept (hbrace : ¬IsBrace (.mark m)) :
    Outcome level enough (accept m) (accept m) s
      fun b t => b = true → t.rest.length < s.rest.length := by
  unfold Parser.accept
  refine get_bind (fun _ => rfl) (ite (fun hm => ?_) fun _ => ?_)
  · exact advance_bind (atMark_iff.1 hm) hbrace TokenKind.noConfusion fun hlength =>
      pure fun _ => hlength
  · exact pure fun h => absurd h Bool.false_ne_true

theorem acceptKeyword {k : Keyword} :
    Outcome level enough (acceptKeyword k) (acceptKeyword k) s
      fun b t => b = true → t.rest.length < s.rest.length := by
  unfold Parser.acceptKeyword
  refine get_bind (fun _ => rfl) (ite (fun hk => ?_) fun _ => ?_)
  · exact advance_bind (atKeyword_iff.1 hk) (not_isBrace_keyword k) TokenKind.noConfusion
      fun hlength => pure fun _ => hlength
  · exact pure fun h => absurd h Bool.false_ne_true

theorem atMark :
    Outcome level enough (atMark m) (atMark m) s fun b t => b = s.atMark m ∧ t = s := by
  unfold Parser.atMark
  exact get_bind (fun _ => rfl) (pure ⟨rfl, rfl⟩)

/-- The error of a missing identifier is about the token in its place; one that is there can be
shown. -/
theorem ident : Outcome level enough ident ident s
    fun i t => t.rest.length < s.rest.length ∧ t.Shows i.span := by
  unfold Parser.ident
  refine get_bind (fun _ => rfl) ?_
  split
  · next name hk =>
      refine advance_bind hk (not_isBrace_ident name) TokenKind.noConfusion fun hlength => ?_
      refine pure ⟨hlength, ?_⟩
      obtain ⟨token, rest, hrest, -, hadvance⟩ := exists_token hk TokenKind.noConfusion
      rw [hadvance, State.span, hrest]
      exact .inr ⟨token.span, .inl rfl, .inl rfl⟩
  · exact fail SyntaxError.noConfusion (shows_span s)

theorem spanFrom {start : Span} :
    Outcome level enough (spanFrom start) (spanFrom start) s fun _ t => t = s := by
  unfold Parser.spanFrom
  exact get_bind (fun _ => rfl) (pure rfl)

/-- What ends with a span of its own. -/
theorem spanned {f : Span → α} {start : Span} (h : ∀ span, Q (f span) s) :
    Outcome level enough (do return f (← Parser.spanFrom start))
      (do return f (← Parser.spanFrom start)) s Q :=
  spanFrom.bind fun _ ht => ht ▸ pure (h _)

theorem advanceBy {n : Nat} {ts : List TokenKind} (htook : Took ts s t) (hn : ts.length = n)
    (hbrace : ∀ k ∈ ts, ¬IsBrace k) :
    Outcome level enough (advanceBy n) (advanceBy n) s fun _ t' => t' = t := by
  subst hn
  induction htook with
  | nil s => exact pure rfl
  | cons hk hend _ ih =>
      obtain ⟨hplain, hbrace⟩ := List.forall_mem_cons.1 hbrace
      exact advance_bind hk hplain hend fun _ => ih hbrace

theorem map {h : α → β} (hx : Outcome level enough x y s Q) (hR : ∀ {a t}, Q a t → R (h a) t) :
    Outcome level enough (h <$> x) (h <$> y) s R := by
  rw [map_eq_pure_bind, map_eq_pure_bind]
  exact hx.bind fun _ hQ => pure (hR hQ)

/-- What follows a choice follows each of its branches. -/
theorem choice_bind {c c' : Parser Bool} {x' y' : Parser α}
    (hc : Outcome level enough (c >>= fun b => if b = true then x else x')
      (c' >>= fun b => if b = true then y else y') s Q)
    (hf : ∀ {a t}, Moves level enough s t → Q a t → Outcome level enough (f a) (g a) t R) :
    Outcome level enough (c >>= fun b => if b = true then x >>= f else x' >>= f)
      (c' >>= fun b => if b = true then y >>= g else y' >>= g) s R := by
  have hassoc {γ δ : Type} (p : Parser Bool) (q r : Parser γ) (k : γ → Parser δ) :
      (p >>= fun b => if b = true then q >>= k else r >>= k) =
        (p >>= fun b => if b = true then q else r) >>= k := by
    rw [bind_assoc]
    congr 1
    funext b
    cases b <;> rfl
  rw [hassoc, hassoc]
  exact hc.bind hf

/-- Something is read unless a mark comes first. -/
theorem unlessMark {a : α} (h : Outcome level enough x y s Q) (ha : Q a s) :
    Outcome level enough (do if ← Parser.atMark m then Pure.pure a else x)
      (do if ← Parser.atMark m then Pure.pure a else y) s Q := by
  refine atMark.bind fun _ hu => ?_
  obtain ⟨-, rfl⟩ := hu
  exact ite (fun _ => pure ha) fun _ => h

end Outcome

/-! ### Types and modifiers -/

section

variable {level enough : Prop} {s : State}

theorem not_isBrace_of_mem_tailSpelling {path : List Tree.Ident} {k : TokenKind}
    (h : k ∈ tailSpelling path) : ¬IsBrace k := by
  obtain ⟨i, -, hk⟩ := List.mem_flatMap.1 h
  simp only [List.mem_cons, List.not_mem_nil, or_false] at hk
  obtain rfl | rfl := hk <;> rintro (h | h) <;> cases h

theorem length_tailSpelling (path : List Tree.Ident) :
    (tailSpelling path).length = 2 * path.length := by
  induction path with
  | nil => rfl
  | cons i path ih =>
      rw [tailSpelling_cons, List.length_cons, List.length_cons, ih, List.length_cons]
      omega

theorem exists_reads_advanceBy (n : Nat) (s : State) : ∃ t, Reads (advanceBy n) s () t := by
  induction n generalizing s with
  | zero => exact ⟨s, reads_pure_iff.2 ⟨rfl, rfl⟩⟩
  | succ n ih =>
      obtain ⟨t, ht⟩ := ih s.advance
      exact ⟨t, Reads.advance_bind ht⟩

theorem Outcome.typeRef : Outcome level enough typeRef typeRef s
    fun _ t => t.rest.length < s.rest.length := by
  unfold Parser.typeRef
  refine get_bind (fun _ => rfl) ?_
  split
  · next hk =>
      exact advance_bind hk (not_isBrace_keyword _) TokenKind.noConfusion fun h => pure h
  · next name hk =>
      refine advance_bind hk (not_isBrace_ident name) TokenKind.noConfusion fun h => ?_
      refine get_bind (fun _ => rfl) ?_
      obtain ⟨t, ht⟩ := exists_reads_advanceBy (2 * (pathTail s.advance.rest).length) s.advance
      have htook := took_pathTail ht
      have hmore : Outcome level enough (Parser.advanceBy (2 * (pathTail s.advance.rest).length))
          (Parser.advanceBy (2 * (pathTail s.advance.rest).length)) s.advance
          fun _ t' => t' = t :=
        advanceBy htook (length_tailSpelling _) fun _ => not_isBrace_of_mem_tailSpelling
      refine hmore.bind fun hmoves ht' => spanned fun _ => ?_
      have hle := hmoves.length_le
      omega
  · split
    · next b hb =>
        have hk := basicType?_eq_some_iff.1 hb
        exact advance_bind hk (not_isBrace_keyword _) TokenKind.noConfusion fun h => pure h
    · exact fail SyntaxError.noConfusion (shows_span s)

theorem Outcome.modifiers : Outcome level enough modifiers modifiers s fun _ _ => True := by
  obtain ⟨words, t, hwords, htook, hend⟩ := exists_words s
  unfold Parser.modifiers
  refine get_bind (fun _ => rfl) ?_
  rw [modifiersOf_of_took hwords htook hend]
  have hlength : (words.map TokenKind.keyword).length = 0 + words.length := by simp
  refine (advanceBy htook hlength fun k hk => ?_).bind fun _ _ => pure trivial
  obtain ⟨word, -, rfl⟩ := List.mem_map.1 hk
  exact not_isBrace_keyword word

theorem Outcome.requireMethod {name : Tree.Ident} (h : s.Shows name.span) :
    Outcome level enough (requireMethod name) (requireMethod name) s fun _ t => t = s := by
  unfold Parser.requireMethod
  refine get_bind (fun _ => rfl) ?_
  split
  · exact fail SyntaxError.noConfusion h
  · exact fail SyntaxError.noConfusion h
  · exact fail SyntaxError.noConfusion h
  · exact fail SyntaxError.noConfusion h
  · exact pure rfl

theorem Outcome.atom : Outcome level enough atom atom s
    fun _ t => t.rest.length < s.rest.length := by
  unfold Parser.atom
  refine get_bind (fun _ => rfl) ?_
  split
  · next l hl =>
      have hk := literal?_eq_some_iff.1 hl
      refine advance_bind hk (not_isBrace_literal l) ?_ fun h => pure h
      rcases l with _ | _ | _ | _ | (_ | _) | _ <;> exact TokenKind.noConfusion
  · split
    · next name hk =>
        exact advance_bind hk (not_isBrace_ident name) TokenKind.noConfusion fun h => pure h
    · split
      · next b hb hdot =>
          have hk := basicType?_eq_some_iff.1 hb
          exact advance_bind hk (not_isBrace_keyword _) TokenKind.noConfusion fun h => pure h
      · exact fail SyntaxError.noConfusion (shows_span s)

end

end Scriptlet.Parser
