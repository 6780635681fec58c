import Scriptlet.Proofs.Parser.Production
import Scriptlet.Proofs.Parser.Skipping

namespace Scriptlet.Parser

/-!
# Lists and pairs of braces

The outcomes of parsers that go on behind an error. A loop whose parts read something, whether they
fail or not, comes to the place where it stops; so a pair of braces is passed as a whole, whatever is
between them.
-/

/-- The parser fails only where the bound on nesting is used up. -/
def Total {α : Type} (x : Parser α) (s : State) : Prop :=
  ∀ {f t}, Fails x s f t → f.error = .exhausted

/-- What lies between two states is in balance and ends with a closing brace, unless the text has
ended before that one. -/
def Closes (s t : State) : Prop :=
  ∃ inner depth, openBraces 0 inner = some depth ∧
    (depth = 0 ∧ (∃ right, right.kind = .mark .rightBrace ∧ Crosses (inner ++ [right]) s t) ∨
      t.kind = .eof ∧ Crosses inner s t)

/-- What lies between two states is a pair of braces with what it holds. -/
def Encloses (s t : State) : Prop :=
  s.kind = .mark .leftBrace ∧ Closes s.advance t

section

variable {α β : Type} {level enough : Prop} {x y : Parser α} {s t : State}
  {many many' : Parser (List α)} {skip : State → State} {stops : State → Bool}

theorem code_ne_of_ne {e : SyntaxError} (h : e ≠ .exhausted) :
    e.code ≠ SyntaxError.exhausted.code := by
  cases e with
  | exhausted => exact absurd rfl h
  | expected _ unclosed =>
      intro heq
      cases unclosed <;> cases heq
  | _ =>
      intro heq
      cases heq

/-- What is wrong is reported and skipped. -/
theorem Outcome.recovering {Q : α → State → Prop} (hx : Outcome level enough x y s Q)
    (hskips : Skips level enough skip) :
    Outcome level enough (recovering x skip) (recovering y skip) s fun a t =>
      (∃ b, a = some b ∧ Q b t) ∨ a = none ∧ ∃ u, Moves level enough s u ∧ t = skip u where
  same front := by
    rw [run_recovering, run_recovering, hx.same]
    rcases x.run.run s with ⟨f | a, t⟩
    · dsimp only
      rw [report_behind, hskips.behind]
    · rfl
  reads hread := by
    unfold Reads at hread
    rw [run_recovering] at hread
    split at hread
    · next a t hrun =>
        cases hread
        obtain ⟨hm, hQ⟩ := hx.reads hrun
        exact ⟨hm, .inl ⟨a, rfl, hQ⟩⟩
    · next f t hrun =>
        cases hread
        obtain ⟨hm, hshows, herror⟩ := hx.fails hrun
        have hreport := hm.report hshows fun he => code_ne_of_ne (herror he)
        exact ⟨hreport.trans (hskips.moves _), .inr ⟨rfl, _, hreport, rfl⟩⟩
  fails hfail := by
    unfold Fails at hfail
    rw [run_recovering] at hfail
    split at hfail <;> cases hfail

/-- If what is skipped is not empty, something is read in any case. -/
theorem Outcome.recovering_lt
    (hx : Outcome level enough x y s fun _ t => t.rest.length < s.rest.length)
    (hskips : Skips level enough skip)
    (hskip : ∀ u, u.rest = s.rest → (skip u).rest.length < s.rest.length) :
    Outcome level enough (Parser.recovering x skip) (Parser.recovering y skip) s
      fun _ t => t.rest.length < s.rest.length := by
  refine (hx.recovering hskips).imp fun {a t} ht => ?_
  obtain ⟨b, -, hlt⟩ | ⟨-, u, hm, rfl⟩ := ht
  · exact hlt
  · obtain hlt | heq := hm.length_lt_or_rest_eq
    · exact Nat.lt_of_le_of_lt (hskips.moves _).length_le hlt
    · exact hskip _ heq

theorem Outcome.separated
    (hx : Outcome level enough x y s fun _ t => t.rest.length < s.rest.length)
    (hmany : ∀ t, t.rest.length < s.rest.length →
      Outcome level enough many many' t fun _ u => u.rest.length < t.rest.length) :
    Outcome level enough (separated x many) (separated y many') s
      fun _ t => t.rest.length < s.rest.length := by
  refine hx.bind fun {a t} _ ht => (accept (by decide)).bind fun {b u} hu _ => ?_
  have hle := hu.length_le
  refine ite (fun _ => ?_) fun _ => pure (by omega)
  refine (hmany u (by omega)).bind fun _ hv => pure (by omega)

/-- A loop goes on where something has been read, and leaves where it stops. -/
theorem Outcome.sequence
    (hx : stops s = false → Outcome level enough x y s fun _ t => t.rest.length < s.rest.length)
    (hskips : Skips level enough skip)
    (hskip : stops s = false → ∀ u, u.rest = s.rest → (skip u).rest.length < s.rest.length)
    (hmany : ∀ t, t.rest.length < s.rest.length →
      Outcome level enough many many' t fun _ u => stops u = true)
    (hblind : ∀ front, stops (s.behind front) = stops s) :
    Outcome level enough (sequence stops x skip many) (sequence stops y skip many') s
      fun _ t => stops t = true := by
  refine get_bind (fun front => by rw [hblind]) (ite (fun hstops => pure hstops) fun hgoes => ?_)
  have hgoes := Bool.eq_false_iff.2 hgoes
  refine ((hx hgoes).recovering_lt hskips (hskip hgoes)).bind fun {a t} _ ht => ?_
  exact (hmany t ht).bind fun _ hu => pure hu

theorem total_sequence
    (hx : stops s = false → Outcome level enough x y s fun _ t => t.rest.length < s.rest.length)
    (hskips : Skips level enough skip)
    (hskip : stops s = false → ∀ u, u.rest = s.rest → (skip u).rest.length < s.rest.length)
    (hmany : ∀ t, t.rest.length < s.rest.length → Total many t) :
    Total (sequence stops x skip many) s := by
  intro f t hfail
  obtain hfail | ⟨u, v, hget, hfail⟩ := fails_bind_iff.1 hfail
  · cases hfail
  obtain ⟨rfl, rfl⟩ := reads_get_iff.1 hget
  split at hfail
  · cases hfail
  · next hgoes =>
      have hgoes := Bool.eq_false_iff.2 hgoes
      have hone := (hx hgoes).recovering_lt hskips (hskip hgoes)
      obtain hfail | ⟨a, w, hread, hfail⟩ := fails_bind_iff.1 hfail
      · unfold Fails at hfail
        rw [run_recovering] at hfail
        split at hfail <;> cases hfail
      obtain hfail | ⟨as, w', -, hfail⟩ := fails_bind_iff.1 hfail
      · exact hmany w (hone.reads hread).2 hfail
      · cases hfail

theorem Outcome.classHead : Outcome level enough classHead classHead s
    fun _ t => t.rest.length < s.rest.length := by
  refine modifiers.le.bind fun {mods t} _ ht => ?_
  refine acceptKeyword.le.bind fun {b u} _ hu => ?_
  refine ite (fun _ => stop (failHere SyntaxError.noConfusion)) fun _ => ?_
  exact ident.bind fun _ hv => pure (by omega)

theorem Outcome.methodHead {x y : Parser (List Tree.Param)}
    (hparams : ∀ t, t.rest.length ≤ s.rest.length →
      Outcome level enough x y t fun _ u => u.rest.length < t.rest.length) :
    Outcome level enough (methodHead x) (methodHead y) s
      fun _ t => t.rest.length < s.rest.length := by
  refine modifiers.le.bind fun {mods t} _ ht => get_bind (fun _ => rfl) ?_
  have hrest : Outcome level enough
      (do
        let result ← Parser.typeRef
        let name ← Parser.ident
        Parser.requireMethod name
        let ps ← x
        return (mods, result, name, ps))
      (do
        let result ← Parser.typeRef
        let name ← Parser.ident
        Parser.requireMethod name
        let ps ← y
        return (mods, result, name, ps)) t
      fun _ u => u.rest.length < s.rest.length := by
    refine typeRef.bind fun {result u} _ hu => ?_
    refine ident.bind fun {name v} _ hv => ?_
    refine (requireMethod hv.2).bind fun {_ w} _ hw => ?_
    subst hw
    exact (hparams w (by omega)).bind fun _ hx => pure (by omega)
  dsimp only
  refine ite (fun _ => stop (fail SyntaxError.noConfusion (shows_span t))) fun _ => ?_
  split
  · exact stop (fail SyntaxError.noConfusion (shows_span t))
  · exact hrest

/-- A closing brace that is missing is reported, and nothing is read in its place. -/
theorem Outcome.recovering_rightBrace (hclose : s.atClose = true) :
    Outcome False enough (Parser.recovering (Parser.expect .rightBrace) id)
      (Parser.recovering (Parser.expect .rightBrace) id) s fun _ t =>
        (∃ right, right.kind = .mark .rightBrace ∧ Crosses [right] s t) ∨
          t.kind = .eof ∧ Crosses [] s t where
  same front := by
    have hexpect : Outcome False enough (Parser.expect .rightBrace) (Parser.expect .rightBrace) s
        fun _ t => t.rest.length < s.rest.length := .expect_free
    rw [run_recovering, run_recovering, hexpect.same]
    rcases (Parser.expect .rightBrace).run.run s with ⟨f | a, t⟩
    · exact congrArg (Prod.mk _) (report_behind front t f)
    · rfl
  reads {a t} hread := by
    unfold Reads at hread
    rw [run_recovering] at hread
    by_cases hright : s.kind = .mark .rightBrace
    · have hrun : Reads (Parser.expect .rightBrace) s () s.advance :=
        reads_expect_iff.2 (.one hright TokenKind.noConfusion)
      rw [hrun] at hread
      cases hread
      obtain ⟨right, hkind, hcrosses⟩ := Crosses.advance hright TokenKind.noConfusion
      exact ⟨.free_advance s, .inl ⟨right, hkind, hcrosses⟩⟩
    · have hend : s.kind = .eof := by
        rw [State.atClose, Bool.or_eq_true, atMark_iff, atEnd_iff] at hclose
        exact hclose.resolve_left hright
      rw [fails_expect hright] at hread
      cases hread
      refine ⟨(Moves.refl s).report (shows_gap s) fun _ => ?_, .inr ⟨hend, rfl, ?_, rfl⟩⟩
      · exact code_ne_of_ne SyntaxError.noConfusion
      · exact fun _ h => absurd h List.not_mem_nil
  fails hfail := by
    unfold Fails at hfail
    rw [run_recovering] at hfail
    split at hfail <;> cases hfail

/-- Parts in braces behind the opening one. -/
theorem Outcome.closing
    (hmany : Outcome level enough many many' s fun _ t => t.atClose = true) :
    Outcome False enough (closing many) (closing many') s fun _ t => level → Closes s t := by
  refine hmany.free.bind fun {as t} _ ⟨hmoves, hclose⟩ => ?_
  refine (recovering_rightBrace hclose).bind fun {u v} _ hv => pure ?_
  intro hlevel
  obtain ⟨read, hread, hdepth⟩ := hmoves.crosses
  obtain ⟨depth, hopen, hdepth⟩ := hdepth hlevel
  obtain ⟨right, hright, hv⟩ | ⟨hend, hv⟩ := hv
  · have hkind : t.kind ≠ .eof := by
      rw [kind_of_rest hv.rest, hright]
      exact TokenKind.noConfusion
    exact ⟨read, depth, hopen,
      .inl ⟨hdepth.resolve_right hkind, right, hright, hread.trans hv⟩⟩
  · refine ⟨read, depth, hopen, .inr ⟨hend, ?_⟩⟩
    have hcrosses := hread.trans hv
    rw [List.append_nil] at hcrosses
    exact hcrosses

theorem total_closing (hmany : Total many s) : Total (closing many) s := by
  intro f t hfail
  obtain hfail | ⟨as, u, -, hfail⟩ := fails_bind_iff.1 hfail
  · exact hmany hfail
  obtain hfail | ⟨r, v, -, hfail⟩ := fails_bind_iff.1 hfail
  · unfold Fails at hfail
    rw [run_recovering] at hfail
    split at hfail <;> cases hfail
  · cases hfail

theorem Encloses.moves (h : Encloses s t) (hmoves : Moves False enough s t) :
    Moves level enough s t where
  crosses := by
    obtain ⟨hleft, inner, depth, hopen, hclose⟩ := h
    obtain ⟨left, hkind, hcrosses⟩ := Crosses.advance hleft TokenKind.noConfusion
    have hone := openBraces_add hopen 1
    rw [Nat.zero_add] at hone
    obtain ⟨rfl, right, hright, hinner⟩ | ⟨hend, hinner⟩ := hclose
    · refine ⟨_, hcrosses.trans hinner, fun _ => ⟨0, ?_, .inl rfl⟩⟩
      rw [List.singleton_append, openBraces_left hkind, openBraces_append, hone]
      exact openBraces_right hright
    · refine ⟨_, hcrosses.trans hinner, fun _ => ⟨depth + 1, ?_, .inr hend⟩⟩
      rw [List.singleton_append, openBraces_left hkind, hone]
  reports := hmoves.reports

theorem run_enclosed (many : Parser (List α)) (hleft : s.kind = .mark .leftBrace) :
    (enclosed many).run.run s = (closing many).run.run s.advance := by
  have hrun : Reads (expect .leftBrace) s () s.advance :=
    reads_expect_iff.2 (.one hleft TokenKind.noConfusion)
  have hbind : enclosed many = expect .leftBrace >>= fun _ => closing many := rfl
  rw [hbind, run_bind, hrun]

/-- Where braces are kept, they hold what is read between them. -/
theorem Outcome.enclosed (hlevel : level → enough)
    (hmany : ∀ t, t.rest.length < s.rest.length →
      Outcome level enough many many' t (fun _ u => u.atClose = true) ∧ Total many t) :
    Outcome level enough (enclosed many) (enclosed many') s
      fun _ t => t.rest.length < s.rest.length ∧ (level → Encloses s t) := by
  by_cases hleft : s.kind = .mark .leftBrace
  · have hlt := length_advance_lt hleft TokenKind.noConfusion
    obtain ⟨hmany, htotal⟩ := hmany s.advance hlt
    have hclosing := hmany.closing
    have hfree : Moves False enough s s.advance := .free_advance s
    refine ⟨fun front => ?_, fun {as t} hread => ?_, fun {f t} hfail => ?_⟩
    · have hleft' : (s.behind front).kind = .mark .leftBrace := hleft
      rw [run_enclosed many hleft, run_enclosed many' hleft', advance_behind]
      exact hclosing.same front
    · unfold Reads at hread
      rw [run_enclosed many hleft] at hread
      obtain ⟨hmoves, hcloses⟩ := hclosing.reads hread
      have hmoves := hfree.trans hmoves
      refine ⟨?_, Nat.lt_of_le_of_lt (hclosing.reads hread).1.length_le hlt,
        fun hl => ⟨hleft, hcloses hl⟩⟩
      by_cases hl : level
      · exact Encloses.moves ⟨hleft, hcloses hl⟩ hmoves
      · exact hmoves.mono hl id
    · -- with braces kept, what is between them is read to its end
      unfold Fails at hfail
      rw [run_enclosed many hleft] at hfail
      obtain ⟨hmoves, hshows, herror⟩ := hclosing.fails hfail
      refine ⟨(hfree.trans hmoves).mono (fun hl => ?_) id, hfree.shows hshows, herror⟩
      exact herror (hlevel hl) (total_closing htotal hfail)
  · have hexpect : Outcome level enough (Parser.expect .leftBrace) (Parser.expect .leftBrace) s
        fun _ _ => False := by
      unfold Parser.expect
      refine .get_bind (fun _ => rfl) ?_
      rw [if_neg (mt atMark_iff.1 hleft)]
      exact .fail SyntaxError.noConfusion (shows_gap s)
    exact hexpect.stop

end

end Scriptlet.Parser
