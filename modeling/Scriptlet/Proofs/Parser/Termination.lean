import Scriptlet.Proofs.Parser.Progress

namespace Scriptlet.Parser

/-!
# Termination

Parsing comes to the end of every text. A production that is entered anew has read something, and so
has a loop that skips tokens when it goes on.
-/

/-- Within a depth of recursion a production goes on with another one in a state: what it comes to
would change with what that one comes to there. -/
def Enters (n : Nat) (a b : Production × State) : Prop :=
  ∃ g : Productions,
    (∀ c : Production × State, c ≠ b → (g c.1).run.run c.2 = (productions n c.1).run.run c.2) ∧
      (g.round a.1).run.run a.2 ≠ (productions (n + 1) a.1).run.run a.2

/-- Tokens have been read, or none, and the level is lower. -/
def Advances (a b : Production × State) : Prop :=
  b.2.rest.length < a.2.rest.length ∨ b.2.rest = a.2.rest ∧ b.1.level < a.1.level

section

variable {n : Nat} {a b c : Production × State}

theorem Advances.trans (h : Advances a b) (h' : Advances b c) : Advances a c := by
  obtain hlt | ⟨heq, hlt⟩ := h
  · obtain hlt' | ⟨heq', -⟩ := h'
    · exact .inl (Nat.lt_trans hlt' hlt)
    · exact .inl (heq' ▸ hlt)
  · obtain hlt' | ⟨heq', hlt'⟩ := h'
    · exact .inl (heq ▸ hlt')
    · exact .inr ⟨heq'.trans heq, Nat.lt_trans hlt' hlt⟩

theorem Enters.advances (h : Enters n a b) : Advances a b := by
  obtain ⟨g, hg, hne⟩ := h
  refine Classical.byContradiction fun hstays => hne ?_
  have hagree (q : Production) (t : State) (hqt : Advances a (q, t)) :
      Meets False (productions n) g q t := by
    have hself := meets_productions n q t
    refine ⟨hself.outcome.congr fun front => ?_, hself.total⟩
    -- what has been reported is no advance
    have hne : (q, t.behind front) ≠ b := fun heq => by
      subst heq
      exact hstays hqt
    exact hg _ hne
  have hbelow : Below False (productions n) g a.1 a.2 :=
    ⟨fun q hq => hagree q a.2 (.inr ⟨rfl, hq⟩), fun q t ht => hagree q t (.inl ht)⟩
  rw [productions_succ]
  exact hbelow.meets.outcome.run_eq

theorem Advances.decreases (h : Advances a b) :
    8 * b.2.rest.length + b.1.level < 8 * a.2.rest.length + a.1.level := by
  obtain hlt | ⟨heq, hlt⟩ := h
  · have hle := b.1.level_le
    omega
  · rw [heq]
    omega

theorem transGen_advances (h : Relation.TransGen (fun a b => ∃ n, Enters n a b) a b) :
    Advances a b := by
  induction h with
  | single h =>
      obtain ⟨n, h⟩ := h
      exact h.advances
  | tail _ h ih =>
      obtain ⟨n, h⟩ := h
      exact ih.trans h.advances

end

/-- Productions of which one fails in one state. -/
noncomputable def Productions.failingAt (g : Productions) (b : Production × State)
    (f : SyntaxFailure) : Productions :=
  open scoped Classical in
  fun p => ExceptT.mk fun s => if (p, s) = b then (.error f, s) else (g p).run.run s

section

variable {g : Productions} {b c : Production × State} {f : SyntaxFailure} {n : Nat} {s t : State}

theorem fails_failingAt : Fails (g.failingAt b f b.1) b.2 f b.2 :=
  if_pos rfl

theorem run_failingAt (h : c ≠ b) :
    (g.failingAt b f c.1).run.run c.2 = (g c.1).run.run c.2 :=
  if_neg h

/-- A list of which a part has been read goes on behind the comma. -/
theorem enters_exprs {e : Tree.Expr} (he : Reads (expr n) s e t) (hcomma : t.kind = .mark .comma) :
    Enters n (.exprs, s) (.exprs, t.advance) := by
  let b : Production × State := (.exprs, t.advance)
  have hfails (f : SyntaxFailure) :
      Fails (((productions n).failingAt b f).round .exprs) s f t.advance := by
    have hother : (Production.expr, s) ≠ b := fun h => Production.noConfusion (congrArg Prod.fst h)
    have hone : Reads ((productions n).failingAt b f .expr) s e t :=
      (run_failingAt hother).trans he
    refine fails_bind_iff.2 (.inr ⟨e, t, hone, fails_bind_iff.2 (.inr ⟨true, t.advance, ?_, ?_⟩)⟩)
    · exact reads_accept_iff.2 (.inl ⟨rfl, .one hcomma TokenKind.noConfusion⟩)
    · exact fails_bind_iff.2 (.inl fails_failingAt)
  have hagrees (f : SyntaxFailure) (c : Production × State) (hc : c ≠ b) :
      ((productions n).failingAt b f c.1).run.run c.2 = (productions n c.1).run.run c.2 :=
    run_failingAt hc
  -- of two different failures one is not what the list comes to
  by_cases hrun : Fails (productions (n + 1) .exprs) s ⟨.exhausted, .point 0⟩ t.advance
  · refine ⟨_, hagrees ⟨.typeExpected, .point 0⟩, fun heq => ?_⟩
    have hfail := (hfails ⟨.typeExpected, .point 0⟩).symm.trans (heq.trans hrun)
    cases hfail
  · exact ⟨_, hagrees ⟨.exhausted, .point 0⟩, fun heq => hrun (heq.symm.trans (hfails _))⟩

end

/-! ### The whole text -/

section

variable {s : State} {n m : Nat}

/-- What a source comes to does not depend on a bound that is enough. -/
theorem outcome_source (hn : 8 * s.rest.length < n) (hm : 8 * s.rest.length < m) :
    Outcome False True (source n) (source m) s fun _ t => t.atEnd = true := by
  have himports : Outcome False True (imports n) (imports m) s fun _ _ => True :=
    ((meets_of_enough (p := .imports) hn hm).outcome.mono False.elim id).imp fun _ => trivial
  refine himports.le.bind fun {is t} _ ht => ?_
  have hn : 8 * t.rest.length < n := by omega
  have hm : 8 * t.rest.length < m := by omega
  have hclasses : Outcome False True (classes n) (classes m) t fun _ u => u.atEnd = true :=
    (meets_of_enough (p := .classes) hn hm).outcome
  exact hclasses.bind fun _ hu => .pure hu

theorem total_source (hn : 8 * s.rest.length < n) : Total (source n) s := by
  intro f t hfail
  obtain hfail | ⟨is, u, himports, hfail⟩ := fails_bind_iff.1 hfail
  · exact (meets_of_enough (p := .imports) hn hn).total trivial hfail
  · have hle := ((meets_of_enough (p := .imports) hn hn).outcome.reads himports).1.length_le
    have hn : 8 * u.rest.length < n := by omega
    obtain hfail | ⟨cs, v, -, hfail⟩ := fails_bind_iff.1 hfail
    · exact (meets_of_enough (p := .classes) hn hn).total trivial hfail
    · cases hfail

/-- A source is read to the end of the text. -/
theorem exists_reads_to_end (s : State) : ∃ source' t,
    (∀ n, 8 * s.rest.length < n → Reads (source n) s source' t) ∧ Moves False True s t ∧
      t.atEnd = true := by
  have houtcome := outcome_source (s := s) (Nat.lt_succ_self _) (Nat.lt_succ_self _)
  rcases hrun : (source (8 * s.rest.length + 1)).run.run s with ⟨f | source', t⟩
  · have herror := total_source (Nat.lt_succ_self _) hrun
    exact absurd herror ((houtcome.fails hrun).2.2 trivial)
  · obtain ⟨hmoves, hend⟩ := houtcome.reads hrun
    refine ⟨source', t, fun n hn => ?_, hmoves, hend⟩
    unfold Reads
    rw [(outcome_source (Nat.lt_succ_self _) hn).run_eq]
    exact hrun

/-- A token list with an end behind it has an end. -/
theorem exists_withEnd (tokens : List Token) : ∃ init last,
    withEnd tokens = init ++ [last] ∧ last.kind = .eof := by
  unfold withEnd
  split
  · exact ⟨[], _, rfl, rfl⟩
  · next last hlast =>
      split
      · next hend =>
          obtain ⟨init, rfl⟩ := List.getLast?_eq_some_iff.1 hlast
          exact ⟨init, last, rfl, hend⟩
      · exact ⟨tokens, _, rfl, rfl⟩

/-- Where a run has reached the end, only tokens in front of the first end have been read. -/
theorem Crosses.rest_eq_dropWhile {read : List Token} {t : State} (h : Crosses read s t)
    (hend : t.kind = .eof) :
    t.rest = s.rest.dropWhile fun token => token.kind != .eof := by
  have hread : ∀ token ∈ read, (token.kind != .eof) = true := fun token htoken =>
    bne_iff_ne.2 (h.no_end token htoken)
  rw [h.rest, List.dropWhile_append_of_pos hread]
  cases hrest : t.rest with
  | nil => rfl
  | cons token rest =>
      rw [kind_of_rest hrest] at hend
      rw [List.dropWhile_cons_of_neg]
      rw [hend]
      decide

end

/-- Parsing always makes progress. A production that is entered anew, directly or through others, as
a list is for its rest, has read a token before; each turn of a loop that skips reads a token or is
the last one; and a text is read up to its first end, however large the bound on the depth of
recursion. -/
theorem parse_progresses :
    (∀ a b, Relation.TransGen (fun a b => ∃ n, Enters n a b) a b → a.1.level ≤ b.1.level →
      b.2.rest.length < a.2.rest.length) ∧
    (WellFounded fun b a => ∃ n, Enters n a b) ∧
    (∀ n s e t, Reads (expr n) s e t → t.kind = .mark .comma →
      Enters n (.exprs, s) (.exprs, t.advance)) ∧
    IsSkip skipStatement ∧ IsSkip skipMember ∧
    (∀ previous token rest, skipToClass previous (token :: rest) = (token :: rest, previous) ∨
      skipToClass previous (token :: rest) = skipToClass (some token.span) rest) ∧
    ∀ tokens, ∃ source' t,
      (∀ n, depthFor (withEnd tokens).length ≤ n →
        Reads (source n) ⟨withEnd tokens, none, []⟩ source' t) ∧
      parse tokens = ⟨source', t.diagnostics⟩ ∧
      t.kind = .eof ∧ t.rest ≠ [] ∧
      t.rest = (withEnd tokens).dropWhile (fun token => token.kind != .eof) ∧
      ∀ d ∈ t.diagnostics, d.code ≠ SyntaxError.exhausted.code := by
  refine ⟨fun a b h hlevel => ?_, ?_, fun _ _ _ _ => enters_exprs, isSkip_skipStatement,
    isSkip_skipMember,
    fun previous token rest => (skipToClass_cons previous token rest).imp_right And.right,
    fun tokens => ?_⟩
  · obtain hlt | ⟨-, hlt⟩ := transGen_advances h
    · exact hlt
    · exact absurd hlt (Nat.not_lt.2 hlevel)
  · exact Subrelation.wf (fun ⟨_, h⟩ => h.advances.decreases)
      (measure fun a : Production × State => 8 * a.2.rest.length + a.1.level).wf
  · obtain ⟨source', t, hreads, hmoves, hend⟩ := exists_reads_to_end ⟨withEnd tokens, none, []⟩
    have hdepth : 8 * (withEnd tokens).length < depthFor (withEnd tokens).length := by
      unfold depthFor
      omega
    have hkind := atEnd_iff.1 hend
    obtain ⟨read, hread, -⟩ := hmoves.crosses
    obtain ⟨new, hnew, hcodes⟩ := hmoves.reports
    refine ⟨source', t, fun n hn => hreads n (Nat.lt_of_lt_of_le hdepth hn), ?_, hkind, ?_,
      hread.rest_eq_dropWhile hkind, fun d hd => ?_⟩
    · have hrun := hreads _ hdepth
      unfold Reads at hrun
      unfold parse
      dsimp only
      rw [hrun]
    · intro hnil
      obtain ⟨init, last, heq, hlast⟩ := exists_withEnd tokens
      have hall : withEnd tokens = read := by
        have hrest := hread.rest
        rw [hnil, List.append_nil] at hrest
        exact hrest
      rw [heq] at hall
      exact hread.no_end last (hall ▸ List.mem_append_right _ List.mem_cons_self) hlast
    · rw [hnew] at hd
      exact (hcodes d hd).2 trivial

end Scriptlet.Parser
