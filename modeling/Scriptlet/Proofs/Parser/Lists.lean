import Scriptlet.Proofs.Parser.Grammar.Source
import Scriptlet.Proofs.Parser.Run

namespace Scriptlet.Parser

/-!
# Parsers of lists

Lists have commas between their parts, or their parts stand one behind the other. Both kinds of
parsers read exactly what is spelled if the parsers of the parts do.
-/

open Grammar

section

variable {α β : Type} {s s' t : State}

/-- A parser of parts with commas between them goes on where a comma comes. -/
theorem reads_commas_iff {p : Parser α} {q : Parser (List α)} {as : List α} :
    Reads (do let a ← p; if ← accept .comma then return a :: (← q) else return [a]) s as s' ↔
      (∃ a others t t', as = a :: others ∧ Reads p s a t ∧ Took [.mark .comma] t t' ∧
        Reads q t' others s') ∨
      ∃ a, as = [a] ∧ Reads p s a s' ∧ s'.kind ≠ .mark .comma := by
  constructor
  · intro h
    obtain ⟨a, t, ha, h⟩ := reads_bind_iff.1 h
    obtain ⟨b, t', haccept, h⟩ := reads_bind_iff.1 h
    obtain ⟨rfl, hcomma⟩ | ⟨rfl, hne, rfl⟩ := reads_accept_iff.1 haccept
    · rw [if_pos rfl] at h
      obtain ⟨others, t'', hothers, h⟩ := reads_bind_iff.1 h
      obtain ⟨rfl, rfl⟩ := reads_pure_iff.1 h
      exact .inl ⟨a, others, t, t', rfl, ha, hcomma, hothers⟩
    · rw [if_neg Bool.false_ne_true] at h
      obtain ⟨rfl, rfl⟩ := reads_pure_iff.1 h
      exact .inr ⟨a, rfl, ha, hne⟩
  · rintro (⟨a, others, t, t', rfl, ha, hcomma, hothers⟩ | ⟨a, rfl, ha, hne⟩)
    · refine ha.bind (Reads.bind (reads_accept_iff.2 (.inl ⟨rfl, hcomma⟩)) ?_)
      rw [if_pos rfl]
      exact hothers.bind (reads_pure_iff.2 ⟨rfl, rfl⟩)
    · refine ha.bind (Reads.bind (reads_accept_iff.2 (.inr ⟨rfl, hne, rfl⟩)) ?_)
      exact reads_pure_iff.2 ⟨rfl, rfl⟩

/-- The list goes on with what is read first, unless that has been skipped and reported. -/
theorem exists_of_reads_recovered {p : Parser α} {q : Parser (List α)} {skip : State → State}
    {as : List α} (hskip : ∀ t, (skip t).diagnostics = t.diagnostics)
    (hq : ∀ {t others}, Reads q t others s' → t.diagnostics = [])
    (h : Reads (do
      let first ← recovering p skip
      let others ← q
      return first.toList ++ others) s as s') :
    ∃ a others t, as = a :: others ∧ Reads p s a t ∧ t.diagnostics = [] ∧
      Reads q t others s' := by
  obtain ⟨first, t, hfirst, h⟩ := reads_bind_iff.1 h
  obtain ⟨others, t', hothers, h⟩ := reads_bind_iff.1 h
  obtain ⟨rfl, rfl⟩ := reads_pure_iff.1 h
  obtain ⟨a, rfl, ha⟩ := reads_of_recovering hskip hfirst (hq hothers)
  exact ⟨a, others, t, rfl, ha, hq hothers, hothers⟩

theorem Reads.recovered {p : Parser α} {q : Parser (List α)} {skip : State → State} {a : α}
    {as : List α} (ha : Reads p s a t) (has : Reads q t as s') :
    Reads (do
      let first ← Parser.recovering p skip
      let others ← q
      return first.toList ++ others) s (a :: as) s' :=
  ha.recovering.bind (has.bind (reads_pure_iff.2 ⟨rfl, rfl⟩))

theorem Took.clean {ts : List TokenKind} (h : Took ts s s') (hclean : s'.diagnostics = []) :
    s.diagnostics = [] :=
  h.diagnostics_eq ▸ hclean

end

/-- A parser of one or more parts with commas between them. -/
structure IsSeparated {α : Type} (one : Nat → Parser α) (many : Nat → Parser (List α)) : Prop where
  zero : many 0 = failHere .exhausted
  succ (n : Nat) : many (n + 1) = do
    let a ← one n
    if ← accept .comma then return a :: (← many n) else return [a]

namespace IsSeparated

variable {α β : Type} {one : Nat → Parser α} {many : Nat → Parser (List α)}
  {P : α → List TokenKind → Prop} {n : Nat} {s s' : State} {as : List α}

theorem separated_of_reads (h : IsSeparated one many)
    (hone : ∀ {n s s' a}, Reads (one n) s a s' → ∃ ts, Took ts s s' ∧ P a ts)
    (hread : Reads (many n) s as s') : ∃ ts, Took ts s s' ∧ Separated P as ts := by
  induction n generalizing s as with
  | zero =>
      rw [h.zero] at hread
      exact absurd hread not_reads_failHere
  | succ n ih =>
      rw [h.succ] at hread
      obtain ⟨a, others, t, t', rfl, ha, hcomma, hothers⟩ | ⟨a, rfl, ha, -⟩ :=
        reads_commas_iff.1 hread
      · obtain ⟨ts, hts, ha⟩ := hone ha
        obtain ⟨us, hus, hothers⟩ := ih hothers
        exact ⟨_, hts.append (hcomma.append hus), .more ha hothers⟩
      · obtain ⟨ts, hts, ha⟩ := hone ha
        exact ⟨ts, hts, .one ha⟩

end IsSeparated

/-- A parser of parts one behind the other, up to where it stops. It skips what is wrong. -/
structure IsSequence {α : Type} (stops : State → Bool) (one : Nat → Parser α)
    (skip : State → State) (many : Nat → Parser (List α)) : Prop where
  zero : many 0 = failHere .exhausted
  succ (n : Nat) : many (n + 1) = do
    if stops (← get) then return []
    else
      let first ← recovering (one n) skip
      let others ← many n
      return first.toList ++ others
  skip_diagnostics (s : State) : (skip s).diagnostics = s.diagnostics

namespace IsSequence

variable {α β : Type} {stops : State → Bool} {one : Nat → Parser α} {skip : State → State}
  {many : Nat → Parser (List α)} {P : α → List TokenKind → Prop} {n : Nat} {s s' : State}
  {as : List α}

theorem sequence_of_reads (h : IsSequence stops one skip many)
    (hone : ∀ {n s s' a}, stops s = false → Reads (one n) s a s' → s'.diagnostics = [] →
      ∃ ts, Took ts s s' ∧ P a ts)
    (hread : Reads (many n) s as s') (hclean : s'.diagnostics = []) :
    stops s' = true ∧ ∃ ts, Took ts s s' ∧ Sequence P as ts := by
  induction n generalizing s as with
  | zero =>
      rw [h.zero] at hread
      exact absurd hread not_reads_failHere
  | succ n ih =>
      rw [h.succ, reads_get_bind_iff] at hread
      split at hread
      · next hstops =>
          obtain ⟨rfl, rfl⟩ := reads_pure_iff.1 hread
          exact ⟨hstops, [], .nil s, .nil⟩
      · next hgoes =>
          have hothers {t : State} {others : List α} (hread : Reads (many n) t others s') :
              t.diagnostics = [] := by
            obtain ⟨-, us, hus, -⟩ := ih hread
            exact hus.clean hclean
          obtain ⟨a, others, t, rfl, ha, hclean', hread⟩ :=
            exists_of_reads_recovered h.skip_diagnostics hothers hread
          obtain ⟨ts, hts, ha⟩ := hone (Bool.eq_false_iff.2 hgoes) ha hclean'
          obtain ⟨hstops, us, hus, hothers⟩ := ih hread
          exact ⟨hstops, _, hts.append hus, .cons ha hothers⟩

end IsSequence

theorem isSeparated_declarators : IsSeparated declarator declarators :=
  ⟨rfl, fun _ => rfl⟩

/-- A parameter. -/
def param : Parser Tree.Param := do
  let type ← typeRef
  let name ← ident
  return ⟨type, name⟩

theorem isSeparated_paramList : IsSeparated (fun _ => param) paramList where
  zero := rfl
  succ n := by simp only [paramList, param, bind_assoc, pure_bind]

/-- The members of a class end with a brace or with the text. -/
def State.atClose (s : State) : Bool :=
  s.atMark .rightBrace || s.atEnd

theorem isSequence_methods : IsSequence State.atClose method State.skipMember methods :=
  ⟨rfl, fun _ => rfl, fun _ => rfl⟩

theorem isSequence_classes : IsSequence State.atEnd cls State.skipToClass classes :=
  ⟨rfl, fun _ => rfl, diagnostics_advance⟩

theorem isSequence_imports :
    IsSequence (fun s => !s.atKeyword .kwUsing) importDecl State.skipMember imports where
  zero := rfl
  succ n := by
    rw [imports]
    congr 1
    funext s
    cases s.atKeyword .kwUsing <;> rfl
  skip_diagnostics _ := rfl

end Scriptlet.Parser
