import Scriptlet.Parser.Basic

namespace Scriptlet.Parser

/-!
# What parsers read

A parser that succeeds gives a part of a tree and a state behind the tokens that it has read.
Reading a token is the only way on that reports nothing.
-/

/-- The parser succeeds with a part of a tree. -/
def Reads {α : Type} (p : Parser α) (s : State) (a : α) (s' : State) : Prop :=
  p.run.run s = (.ok a, s')

section

variable {α β : Type} {s s' : State}

theorem Reads.unique {p : Parser α} {a b : α} {t : State} (h : Reads p s a s')
    (h' : Reads p s b t) : a = b ∧ s' = t := by
  unfold Reads at h h'
  rw [h] at h'
  cases h'
  exact ⟨rfl, rfl⟩

@[simp] theorem reads_pure_iff {a b : α} : Reads (pure a) s b s' ↔ a = b ∧ s = s' := by
  unfold Reads
  constructor
  · intro h
    cases h
    exact ⟨rfl, rfl⟩
  · rintro ⟨rfl, rfl⟩
    rfl

theorem run_bind (p : Parser α) (f : α → Parser β) (s : State) :
    (p >>= f).run.run s = match p.run.run s with
      | (.ok a, t) => (f a).run.run t
      | (.error e, t) => (.error e, t) := by
  have hbind : (p >>= f).run.run s =
      (ExceptT.bindCont f (p.run.run s).1).run (p.run.run s).2 := rfl
  rw [hbind]
  rcases p.run.run s with ⟨_ | a, t⟩ <;> rfl

theorem reads_bind_iff {p : Parser α} {f : α → Parser β} {b : β} :
    Reads (p >>= f) s b s' ↔ ∃ a t, Reads p s a t ∧ Reads (f a) t b s' := by
  unfold Reads
  rw [run_bind]
  constructor
  · intro h
    split at h
    · next a t hp => exact ⟨a, t, hp, h⟩
    · cases h
  · rintro ⟨a, t, hp, hf⟩
    rw [hp]
    exact hf

theorem Reads.bind {p : Parser α} {f : α → Parser β} {a : α} {b : β} {t : State}
    (hp : Reads p s a t) (hf : Reads (f a) t b s') : Reads (p >>= f) s b s' :=
  reads_bind_iff.2 ⟨a, t, hp, hf⟩

theorem Reads.map {p : Parser α} {f : α → β} {a : α} (hp : Reads p s a s') :
    Reads (f <$> p) s (f a) s' := by
  rw [map_eq_pure_bind]
  exact hp.bind (reads_pure_iff.2 ⟨rfl, rfl⟩)

theorem reads_map_iff {p : Parser α} {f : α → β} {b : β} :
    Reads (f <$> p) s b s' ↔ ∃ a, Reads p s a s' ∧ f a = b := by
  rw [map_eq_pure_bind, reads_bind_iff]
  constructor
  · rintro ⟨a, t, hp, hf⟩
    obtain ⟨rfl, rfl⟩ := reads_pure_iff.1 hf
    exact ⟨a, hp, rfl⟩
  · rintro ⟨a, hp, hf⟩
    exact ⟨a, s', hp, reads_pure_iff.2 ⟨hf, rfl⟩⟩

@[simp] theorem reads_get_iff {t : State} : Reads (get : Parser State) s t s' ↔ s = t ∧ s = s' := by
  unfold Reads
  constructor
  · intro h
    cases h
    exact ⟨rfl, rfl⟩
  · rintro ⟨rfl, rfl⟩
    rfl

@[simp] theorem reads_advance_iff {u : Unit} : Reads advance s u s' ↔ s' = s.advance := by
  unfold Reads
  constructor
  · intro h
    cases h
    rfl
  · rintro rfl
    rfl

@[simp] theorem not_reads_fail {e : SyntaxError} {span : Text.Span} {a : α} :
    ¬Reads (fail e span) s a s' := by
  intro h
  cases h

@[simp] theorem not_reads_failHere {e : SyntaxError} {a : α} : ¬Reads (failHere e) s a s' := by
  intro h
  cases h

theorem Reads.get_bind {f : State → Parser β} {b : β} (h : Reads (f s) s b s') :
    Reads (get >>= f) s b s' :=
  Reads.bind (reads_get_iff.2 ⟨rfl, rfl⟩) h

theorem reads_get_bind_iff {f : State → Parser β} {b : β} :
    Reads (get >>= f) s b s' ↔ Reads (f s) s b s' := by
  refine ⟨fun h => ?_, Reads.get_bind⟩
  obtain ⟨t, t', ht, h⟩ := reads_bind_iff.1 h
  obtain ⟨rfl, rfl⟩ := reads_get_iff.1 ht
  exact h

theorem Reads.advance_bind {f : Unit → Parser β} {b : β} (h : Reads (f ()) s.advance b s') :
    Reads (advance >>= f) s b s' :=
  Reads.bind (reads_advance_iff.2 rfl) h

theorem reads_advance_bind_iff {f : Unit → Parser β} {b : β} :
    Reads (advance >>= f) s b s' ↔ Reads (f ()) s.advance b s' := by
  refine ⟨fun h => ?_, Reads.advance_bind⟩
  obtain ⟨u, t, ht, h⟩ := reads_bind_iff.1 h
  obtain rfl := reads_advance_iff.1 ht
  exact h

/-- What follows a choice follows each of its branches. -/
theorem reads_choice_bind_iff {γ : Type} {c : Parser Bool} {p q : Parser α} {f : α → Parser γ}
    {r : γ} :
    Reads (c >>= fun b => if b = true then p >>= f else q >>= f) s r s' ↔
      ∃ a t, Reads (c >>= fun b => if b = true then p else q) s a t ∧ Reads (f a) t r s' := by
  have hassoc : (c >>= fun b => if b = true then p >>= f else q >>= f) =
      (c >>= fun b => if b = true then p else q) >>= f := by
    rw [bind_assoc]
    congr 1
    funext b
    cases b <;> rfl
  rw [hassoc, reads_bind_iff]

end

/-- The tokens of these kinds have been read, and nothing has been reported. -/
inductive Took : List TokenKind → State → State → Prop
  | nil (s : State) : Took [] s s
  | cons {k : TokenKind} {ts : List TokenKind} {s s' : State} (hk : s.kind = k) (hend : k ≠ .eof)
      (h : Took ts s.advance s') : Took (k :: ts) s s'

section

variable {ts us : List TokenKind} {k : TokenKind} {s s' t : State}

theorem exists_token (hk : s.kind = k) (hend : k ≠ .eof) :
    ∃ token rest, s.rest = token :: rest ∧ token.kind = k ∧
      s.advance = ⟨rest, some token.span, s.diagnostics⟩ := by
  obtain ⟨rest, previous, diagnostics⟩ := s
  cases rest with
  | nil => exact absurd hk.symm hend
  | cons token rest =>
      obtain rfl : token.kind = k := hk
      refine ⟨token, rest, rfl, rfl, ?_⟩
      rw [State.advance]
      exact if_neg hend

theorem ahead_succ (hend : s.kind ≠ .eof) (n : Nat) : s.ahead (n + 1) = s.advance.ahead n := by
  obtain ⟨token, rest, hrest, -, hadvance⟩ := exists_token rfl hend
  rw [hadvance, State.ahead, hrest, List.getElem?_cons_succ]
  rfl

theorem diagnostics_advance (s : State) : s.advance.diagnostics = s.diagnostics := by
  unfold State.advance
  split
  · split <;> rfl
  · rfl

namespace Took

theorem one (hk : s.kind = k) (hend : k ≠ .eof) : Took [k] s s.advance :=
  .cons hk hend (.nil _)

theorem eq_of_nil (h : Took [] s s') : s = s' := by
  cases h
  rfl

theorem kind_eq (h : Took (k :: ts) s s') : s.kind = k := by
  cases h with
  | cons hk _ _ => exact hk

theorem cut (h : Took (k :: ts) s s') : Took [k] s s.advance ∧ Took ts s.advance s' := by
  cases h with
  | cons hk hend h => exact ⟨.one hk hend, h⟩

theorem append (h : Took ts s t) (h' : Took us t s') : Took (ts ++ us) s s' := by
  induction h with
  | nil _ => exact h'
  | cons hk hend _ ih => exact .cons hk hend (ih h')

theorem split (h : Took (ts ++ us) s s') : ∃ t, Took ts s t ∧ Took us t s' := by
  induction ts generalizing s with
  | nil => exact ⟨s, .nil s, h⟩
  | cons k ts ih =>
      cases h with
      | cons hk hend h =>
          obtain ⟨t, hts, hus⟩ := ih h
          exact ⟨t, .cons hk hend hts, hus⟩

theorem diagnostics_eq (h : Took ts s s') : s'.diagnostics = s.diagnostics := by
  induction h with
  | nil _ => rfl
  | cons _ _ _ ih => rw [ih, diagnostics_advance]

/-- There is one way to read up to the end. -/
theorem unique (h : Took ts s s') (hend : s'.kind = .eof) (h' : Took us s t)
    (hend' : t.kind = .eof) : ts = us ∧ s' = t := by
  induction h generalizing us with
  | nil s =>
      cases h' with
      | nil _ => exact ⟨rfl, rfl⟩
      | cons hk hne _ => exact absurd (hk.symm.trans hend) hne
  | cons hk hne _ ih =>
      cases h' with
      | nil _ => exact absurd (hk.symm.trans hend') hne
      | cons hk' _ h' =>
          obtain ⟨rfl, rfl⟩ := ih hend h'
          exact ⟨congrArg (· :: _) (hk.symm.trans hk'), rfl⟩

/-- Tokens that are no ends can be read. -/
theorem exists_of_rest {read tail : List Token} (hrest : s.rest = read ++ tail)
    (hend : ∀ token ∈ read, token.kind ≠ .eof) :
    ∃ s', Took (read.map Token.kind) s s' ∧ s'.rest = tail := by
  induction read generalizing s with
  | nil => exact ⟨s, .nil s, hrest⟩
  | cons token read ih =>
      obtain ⟨htoken, hread⟩ := List.forall_mem_cons.1 hend
      have hkind : s.kind = token.kind := by
        rw [State.kind, State.ahead, hrest]
        rfl
      have hadvance : s.advance.rest = read ++ tail := by
        obtain ⟨_, rest, hcons, -, hadvance⟩ := exists_token hkind htoken
        rw [hadvance]
        rw [hrest] at hcons
        exact (List.cons.inj hcons).2.symm
      obtain ⟨s', htook, htail⟩ := ih hadvance hread
      exact ⟨s', .cons hkind htoken htook, htail⟩

end Took

end

section

variable {s s' : State} {m : Mark}

theorem atMark_iff : s.atMark m = true ↔ s.kind = .mark m := by
  unfold State.atMark
  split
  · next n hn => rw [hn, beq_iff_eq, TokenKind.mark.injEq]
  · next hn => simpa using hn m

theorem atKeyword_iff {k : Keyword} : s.atKeyword k = true ↔ s.kind = .keyword k := by
  unfold State.atKeyword
  split
  · next n hn => rw [hn, beq_iff_eq, TokenKind.keyword.injEq]
  · next hn => simpa using hn k

theorem atEnd_iff : s.atEnd = true ↔ s.kind = .eof := by
  unfold State.atEnd
  split
  · next hn => exact iff_of_true rfl hn
  · next hn => exact iff_of_false Bool.false_ne_true hn

/-- A token that is required, by a test that recognises it. -/
theorem reads_required_iff {k : TokenKind} (hend : k ≠ .eof) {test : State → Bool}
    (htest : ∀ t, test t = true ↔ t.kind = k) {e : State → SyntaxError} {u : Unit} :
    Reads (do
      let t ← get
      if test t then advance else fail (e t) t.gap) s u s' ↔ Took [k] s s' := by
  rw [reads_get_bind_iff]
  constructor
  · intro h
    split at h
    · next hm =>
        rw [reads_advance_iff] at h
        subst h
        exact .one ((htest s).1 hm) hend
    · exact absurd h not_reads_fail
  · rintro (_ | ⟨hk, -, _ | _⟩)
    rw [if_pos ((htest s).2 hk)]
    exact reads_advance_iff.2 rfl

/-- A token that may come, by a test that recognises it. -/
theorem reads_optional_iff {k : TokenKind} (hend : k ≠ .eof) {test : State → Bool}
    (htest : ∀ t, test t = true ↔ t.kind = k) {b : Bool} :
    Reads (do
      if test (← get) then
        advance
        return true
      else return false) s b s' ↔
      b = true ∧ Took [k] s s' ∨ b = false ∧ s.kind ≠ k ∧ s = s' := by
  rw [reads_get_bind_iff]
  by_cases hm : test s = true
  · rw [if_pos hm, reads_advance_bind_iff, reads_pure_iff]
    have hk := (htest s).1 hm
    constructor
    · rintro ⟨rfl, rfl⟩
      exact .inl ⟨rfl, .one hk hend⟩
    · rintro (⟨rfl, _ | ⟨_, _, _ | _⟩⟩ | ⟨_, hne, _⟩)
      · exact ⟨rfl, rfl⟩
      · exact absurd hk hne
  · rw [if_neg hm, reads_pure_iff]
    have hk := mt (htest s).2 hm
    constructor
    · rintro ⟨rfl, rfl⟩
      exact .inr ⟨rfl, hk, rfl⟩
    · rintro (⟨_, _ | ⟨hne, _, _⟩⟩ | ⟨rfl, _, rfl⟩)
      · exact absurd hne hk
      · exact ⟨rfl, rfl⟩

theorem reads_expect_iff {u : Unit} : Reads (expect m) s u s' ↔ Took [.mark m] s s' :=
  reads_required_iff TokenKind.noConfusion fun _ => atMark_iff

theorem Took.expect_bind {α : Type} {f : Unit → Parser α} {a : α} {t : State}
    (hm : Took [.mark m] s t) (hf : Reads (f ()) t a s') : Reads (expect m >>= f) s a s' :=
  Reads.bind (reads_expect_iff.2 hm) hf

theorem reads_expectKeyword_iff {k : Keyword} {u : Unit} :
    Reads (expectKeyword k) s u s' ↔ Took [.keyword k] s s' :=
  reads_required_iff TokenKind.noConfusion fun _ => atKeyword_iff

theorem reads_accept_iff {b : Bool} :
    Reads (accept m) s b s' ↔
      b = true ∧ Took [.mark m] s s' ∨ b = false ∧ s.kind ≠ .mark m ∧ s = s' :=
  reads_optional_iff TokenKind.noConfusion fun _ => atMark_iff

theorem reads_acceptKeyword_iff {k : Keyword} {b : Bool} :
    Reads (acceptKeyword k) s b s' ↔
      b = true ∧ Took [.keyword k] s s' ∨ b = false ∧ s.kind ≠ .keyword k ∧ s = s' :=
  reads_optional_iff TokenKind.noConfusion fun _ => atKeyword_iff

theorem reads_atMark_iff {b : Bool} : Reads (atMark m) s b s' ↔ b = s.atMark m ∧ s = s' := by
  unfold atMark
  rw [reads_get_bind_iff, reads_pure_iff, eq_comm]

/-- Spans never fail. -/
theorem reads_spanFrom_iff {start span : Text.Span} :
    Reads (spanFrom start) s span s' ↔ span = start.merge s.lastSpan ∧ s = s' := by
  unfold spanFrom
  rw [reads_get_bind_iff, reads_pure_iff, eq_comm]

/-- A part that ends with its last token. -/
theorem reads_spanned_iff {α : Type} {f : Text.Span → α} {start : Text.Span} {a : α} :
    Reads (do return f (← spanFrom start)) s a s' ↔ f (start.merge s.lastSpan) = a ∧ s = s' := by
  constructor
  · intro h
    obtain ⟨span, t, hspan, h⟩ := reads_bind_iff.1 h
    obtain ⟨rfl, rfl⟩ := reads_spanFrom_iff.1 hspan
    exact reads_pure_iff.1 h
  · rintro ⟨rfl, rfl⟩
    exact (reads_spanFrom_iff.2 ⟨rfl, rfl⟩).bind (reads_pure_iff.2 ⟨rfl, rfl⟩)

/-- A part that ends with a mark. -/
theorem reads_closed_iff {α : Type} {f : Text.Span → α} {start : Text.Span} {a : α} :
    Reads (do expect m; return f (← spanFrom start)) s a s' ↔
      Took [.mark m] s s' ∧ f (start.merge s'.lastSpan) = a := by
  constructor
  · intro h
    obtain ⟨_, t, hm, h⟩ := reads_bind_iff.1 h
    obtain ⟨rfl, rfl⟩ := reads_spanned_iff.1 h
    exact ⟨reads_expect_iff.1 hm, rfl⟩
  · rintro ⟨hm, rfl⟩
    exact Reads.bind (a := ()) (reads_expect_iff.2 hm) (reads_spanned_iff.2 ⟨rfl, rfl⟩)

theorem reads_ident_iff {i : Tree.Ident} :
    Reads ident s i s' ↔ Took [.ident i.name] s s' ∧ i.span = s.span := by
  unfold ident
  rw [reads_get_bind_iff]
  constructor
  · intro h
    split at h
    · next name hk =>
        rw [reads_advance_bind_iff, reads_pure_iff] at h
        obtain ⟨rfl, rfl⟩ := h
        exact ⟨.one hk TokenKind.noConfusion, rfl⟩
    · exact absurd h not_reads_fail
  · rintro ⟨_ | ⟨hk, -, _ | _⟩, hspan⟩
    rw [hk]
    dsimp only
    rw [reads_advance_bind_iff, reads_pure_iff, ← hspan]
    exact ⟨rfl, rfl⟩

theorem Took.reads_ident {name : String} (h : Took [.ident name] s s') :
    Reads ident s ⟨name, s.span⟩ s' :=
  reads_ident_iff.2 ⟨h, rfl⟩

theorem run_recovering {α : Type} (p : Parser α) (skip : State → State) (s : State) :
    (recovering p skip).run.run s = match p.run.run s with
      | (.ok a, t) => (.ok (some a), t)
      | (.error f, t) => (.ok none, skip (t.report f)) := by
  unfold recovering
  rcases hp : p.run.run s with ⟨f | a, t⟩
  · have hrun : p s = (.error f, t) := hp
    simp only [ExceptT.run, bind, ExceptT.bind, ExceptT.mk, StateT.run, StateT.bind, tryCatch,
      tryCatchThe, MonadExceptOf.tryCatch, ExceptT.tryCatch, ExceptT.bindCont, hrun]
    rfl
  · have hrun : p s = (.ok a, t) := hp
    simp only [ExceptT.run, bind, ExceptT.bind, ExceptT.mk, StateT.run, StateT.bind, tryCatch,
      tryCatchThe, MonadExceptOf.tryCatch, ExceptT.tryCatch, ExceptT.bindCont, hrun]
    rfl

/-- A part that was skipped has been reported. -/
theorem reads_of_recovering {α : Type} {p : Parser α} {skip : State → State} {r : Option α}
    (hskip : ∀ t, (skip t).diagnostics = t.diagnostics) (h : Reads (recovering p skip) s r s')
    (hclean : s'.diagnostics = []) : ∃ a, r = some a ∧ Reads p s a s' := by
  unfold Reads at h ⊢
  rw [run_recovering] at h
  split at h
  · next a t hp =>
      cases h
      exact ⟨a, rfl, hp⟩
  · next f t hp =>
      cases h
      rw [hskip, State.report] at hclean
      exact absurd hclean (List.append_ne_nil_of_right_ne_nil _ (List.cons_ne_nil _ _))

theorem Reads.recovering {α : Type} {p : Parser α} {skip : State → State} {a : α}
    (h : Reads p s a s') : Reads (recovering p skip) s (some a) s' := by
  unfold Reads at h ⊢
  rw [run_recovering, h]

end

end Scriptlet.Parser
