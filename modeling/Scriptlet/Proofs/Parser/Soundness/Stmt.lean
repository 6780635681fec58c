import Scriptlet.Proofs.Parser.Grammar.Source
import Scriptlet.Proofs.Parser.Soundness.Expr

namespace Scriptlet.Parser

/-!
# What the statement parser has read

A block skips tokens behind an error, but never without a report. So if nothing has been reported
when the parser is done, the tokens that it has read spell what it has made.
-/

open Grammar
open Scriptlet.Tree (Declarator Expr ForInit LocalDecl Stmt)

section

variable {n : Nat} {s s' t : State}

theorem spells_of_reads_declarator {d : Declarator} (h : Reads (declarator n) s d s') :
    ∃ ts, Took ts s s' ∧ SpellsDeclarator d ts := by
  unfold declarator at h
  obtain ⟨name, t, hname, h⟩ := reads_bind_iff.1 h
  obtain ⟨hname, -⟩ := reads_ident_iff.1 hname
  obtain ⟨b, t₁, haccept, h⟩ := reads_bind_iff.1 h
  obtain ⟨rfl, hequal⟩ | ⟨rfl, -, rfl⟩ := reads_accept_iff.1 haccept
  · rw [if_pos rfl] at h
    obtain ⟨e, t₂, he, h⟩ := reads_bind_iff.1 h
    obtain ⟨rfl, rfl⟩ := reads_pure_iff.1 h
    obtain ⟨ts, hts, he⟩ := (soundExprs n).expr he
    exact ⟨_, hname.append (hequal.append hts), .initial name he⟩
  · rw [if_neg Bool.false_ne_true] at h
    obtain ⟨rfl, rfl⟩ := reads_pure_iff.1 h
    exact ⟨_, hname, .bare name⟩

theorem spells_of_reads_declarators {ds : List Declarator} (h : Reads (declarators n) s ds s') :
    ∃ ts, Took ts s s' ∧ Separated SpellsDeclarator ds ts :=
  isSeparated_declarators.separated_of_reads spells_of_reads_declarator h

theorem spells_of_reads_locals {d : LocalDecl} (h : Reads (locals n) s d s') :
    ∃ ts, Took ts s s' ∧ SpellsLocals d ts := by
  unfold locals at h
  obtain ⟨b, t, haccept, h⟩ := reads_bind_iff.1 h
  obtain ⟨rfl, hvar⟩ | ⟨rfl, -, rfl⟩ := reads_acceptKeyword_iff.1 haccept
  · rw [if_pos rfl, pure_bind] at h
    obtain ⟨ds, t₁, hds, h⟩ := reads_bind_iff.1 h
    obtain ⟨rfl, rfl⟩ := reads_pure_iff.1 h
    obtain ⟨ts, hts, hds⟩ := spells_of_reads_declarators hds
    exact ⟨_, hvar.append hts, .var hds⟩
  · rw [if_neg Bool.false_ne_true] at h
    obtain ⟨type, t₁, htype, h⟩ := reads_bind_iff.1 h
    obtain ⟨named, hnamed, rfl⟩ := reads_map_iff.1 htype
    obtain ⟨ds, t₂, hds, h⟩ := reads_bind_iff.1 h
    obtain ⟨rfl, rfl⟩ := reads_pure_iff.1 h
    obtain ⟨hproper, hnamed⟩ := took_of_reads_typeRef hnamed
    obtain ⟨ts, hts, hds⟩ := spells_of_reads_declarators hds
    exact ⟨_, hnamed.append hts, .typed hproper hds⟩

theorem spells_of_reads_condition {e : Expr} (h : Reads (condition n) s e s') :
    ∃ ts, Took (.mark .leftParen :: ts ++ [.mark .rightParen]) s s' ∧ Spells (.expr 0 e) ts := by
  unfold condition at h
  obtain ⟨_, t₁, hleft, h⟩ := reads_bind_iff.1 h
  obtain ⟨c, t₂, hc, h⟩ := reads_bind_iff.1 h
  obtain ⟨_, t₃, hright, h⟩ := reads_bind_iff.1 h
  obtain ⟨rfl, rfl⟩ := reads_pure_iff.1 h
  obtain ⟨ts, hts, hc⟩ := (soundExprs n).expr hc
  have hinner := hts.append (reads_expect_iff.1 hright)
  exact ⟨ts, (reads_expect_iff.1 hleft).append hinner, hc⟩

theorem spells_of_reads_forInit {i : ForInit} (h : Reads (forInit n) s i s') :
    ∃ ts, Took ts s s' ∧ SpellsInit i ts := by
  unfold forInit at h
  rw [reads_get_bind_iff] at h
  split at h
  · obtain ⟨rfl, rfl⟩ := reads_pure_iff.1 h
    exact ⟨[], .nil s, .nothing⟩
  · split at h
    · obtain ⟨d, t, hd, h⟩ := reads_bind_iff.1 h
      obtain ⟨rfl, rfl⟩ := reads_pure_iff.1 h
      obtain ⟨ts, hts, hd⟩ := spells_of_reads_locals hd
      exact ⟨ts, hts, .locals hd⟩
    · obtain ⟨es, t, hes, h⟩ := reads_bind_iff.1 h
      obtain ⟨rfl, rfl⟩ := reads_pure_iff.1 h
      obtain ⟨ts, hts, hes⟩ := (soundExprs n).exprs hes
      exact ⟨ts, hts, .exprs hes⟩

theorem spells_of_reads_exprUnless {m : Mark} {e : Option Expr}
    (h : Reads (exprUnless m n) s e s') : ∃ ts, Took ts s s' ∧ SpellsOption e ts := by
  unfold exprUnless at h
  obtain ⟨b, t, hmark, h⟩ := reads_bind_iff.1 h
  obtain ⟨rfl, rfl⟩ := reads_atMark_iff.1 hmark
  split at h
  · obtain ⟨rfl, rfl⟩ := reads_pure_iff.1 h
    exact ⟨[], .nil s, .none⟩
  · obtain ⟨e, he, rfl⟩ := reads_map_iff.1 h
    obtain ⟨ts, hts, he⟩ := (soundExprs n).expr he
    exact ⟨ts, hts, .some he⟩

/-- The expressions in front of the closing parenthesis of a `for`. -/
theorem spells_of_reads_steps {es : List Expr}
    (h : Reads (do if ← atMark .rightParen then pure [] else exprs n) s es s') :
    ∃ ts, Took ts s s' ∧ SpellsSteps es ts := by
  obtain ⟨b, t, hmark, h⟩ := reads_bind_iff.1 h
  obtain ⟨rfl, rfl⟩ := reads_atMark_iff.1 hmark
  split at h
  · obtain ⟨rfl, rfl⟩ := reads_pure_iff.1 h
    exact ⟨[], .nil s, .none⟩
  · obtain ⟨ts, hts, hes⟩ := (soundExprs n).exprs h
    exact ⟨ts, hts, .some hes⟩

end

/-- Statements that are read without a report within a depth of recursion are spelled. -/
structure SoundStmts (n : Nat) : Prop where
  stmt : ∀ {s s' a}, Reads (stmt n) s a s' → s'.diagnostics = [] →
    ∃ ts, Took ts s s' ∧ SpellsBody (.stmt a) ts
  block : ∀ {s s' b}, Reads (block n) s b s' → s'.diagnostics = [] →
    ∃ ts, Took (.mark .leftBrace :: ts ++ [.mark .rightBrace]) s s' ∧ SpellsBody (.stmts b.body) ts
  stmts : ∀ {s s' as}, Reads (stmts n) s as s' → s'.diagnostics = [] →
    ∃ ts, Took ts s s' ∧ SpellsBody (.stmts as) ts

theorem diagnostics_skipStatement (s : State) : s.skipStatement.diagnostics = s.diagnostics := rfl

namespace SoundStmts

variable {n : Nat} {s s' : State}

theorem zero : SoundStmts 0 where
  stmt h := absurd h not_reads_failHere
  block h := absurd h not_reads_failHere
  stmts h := absurd h not_reads_failHere

theorem stmts_succ (ih : SoundStmts n) {as : List Stmt} (h : Reads (Parser.stmts (n + 1)) s as s')
    (hclean : s'.diagnostics = []) : ∃ ts, Took ts s s' ∧ SpellsBody (.stmts as) ts := by
  rw [Parser.stmts, reads_get_bind_iff] at h
  split at h
  · obtain ⟨rfl, rfl⟩ := reads_pure_iff.1 h
    exact ⟨[], .nil s, .nil⟩
  · have hothers {t : State} {others : List Stmt} (hread : Reads (Parser.stmts n) t others s') :
        t.diagnostics = [] := by
      obtain ⟨us, hus, -⟩ := ih.stmts hread hclean
      exact hus.clean hclean
    obtain ⟨a, others, t, rfl, ha, hclean', hread⟩ :=
      exists_of_reads_recovered diagnostics_skipStatement hothers h
    obtain ⟨ts, hts, ha⟩ := ih.stmt ha hclean'
    obtain ⟨us, hus, hothers⟩ := ih.stmts hread hclean
    exact ⟨_, hts.append hus, .cons ha hothers⟩

theorem block_succ (ih : SoundStmts n) {b : Tree.Block} (h : Reads (Parser.block (n + 1)) s b s')
    (hclean : s'.diagnostics = []) :
    ∃ ts, Took (.mark .leftBrace :: ts ++ [.mark .rightBrace]) s s' ∧
      SpellsBody (.stmts b.body) ts := by
  rw [Parser.block, reads_get_bind_iff] at h
  obtain ⟨_, t₁, hleft, h⟩ := reads_bind_iff.1 h
  obtain ⟨body, t₂, hbody, h⟩ := reads_bind_iff.1 h
  obtain ⟨r, t₃, hclose, h⟩ := reads_bind_iff.1 h
  obtain ⟨rfl, rfl⟩ := reads_spanned_iff.1 h
  obtain ⟨_, rfl, hread⟩ := reads_of_recovering (fun _ => rfl) hclose hclean
  have hright := reads_expect_iff.1 hread
  obtain ⟨ts, hts, hbody⟩ := ih.stmts hbody (hright.clean hclean)
  exact ⟨ts, (reads_expect_iff.1 hleft).append (hts.append hright), hbody⟩

theorem stmt_succ (ih : SoundStmts n) {a : Stmt} (h : Reads (Parser.stmt (n + 1)) s a s')
    (hclean : s'.diagnostics = []) : ∃ ts, Took ts s s' ∧ SpellsBody (.stmt a) ts := by
  rw [Parser.stmt, reads_get_bind_iff] at h
  dsimp only at h
  split at h
  · obtain ⟨b, t₁, hb, h⟩ := reads_bind_iff.1 h
    obtain ⟨rfl, rfl⟩ := reads_spanned_iff.1 h
    obtain ⟨ts, hts, hbody⟩ := ih.block hb hclean
    exact ⟨_, hts, .block _ hbody⟩
  · next hk =>
      rw [reads_advance_bind_iff] at h
      obtain ⟨rfl, rfl⟩ := reads_spanned_iff.1 h
      exact ⟨_, .one hk TokenKind.noConfusion, .empty _⟩
  · next hk =>
      rw [reads_advance_bind_iff] at h
      obtain ⟨c, t₁, hc, h⟩ := reads_bind_iff.1 h
      obtain ⟨yes, t₂, hyes, h⟩ := reads_bind_iff.1 h
      obtain ⟨b, t₃, haccept, h⟩ := reads_bind_iff.1 h
      obtain ⟨ts, hts, hc⟩ := spells_of_reads_condition hc
      obtain ⟨rfl, helse⟩ | ⟨rfl, -, rfl⟩ := reads_acceptKeyword_iff.1 haccept
      · rw [if_pos rfl] at h
        obtain ⟨no, t₄, hno, h⟩ := reads_bind_iff.1 h
        obtain ⟨no, hread, rfl⟩ := reads_map_iff.1 hno
        obtain ⟨rfl, rfl⟩ := reads_spanned_iff.1 h
        obtain ⟨vs, hvs, hno⟩ := ih.stmt hread hclean
        obtain ⟨us, hus, hyes⟩ := ih.stmt hyes (helse.clean (hvs.clean hclean))
        have hparts := hts.append (hus.append (helse.append hvs))
        have hall := Took.cons hk TokenKind.noConfusion hparts
        refine ⟨_, ?_, .condElse _ hc hyes hno⟩
        simpa only [List.cons_append, List.append_assoc, List.nil_append] using hall
      · rw [if_neg Bool.false_ne_true, pure_bind] at h
        obtain ⟨rfl, rfl⟩ := reads_spanned_iff.1 h
        obtain ⟨us, hus, hyes⟩ := ih.stmt hyes hclean
        have hall := Took.cons hk TokenKind.noConfusion (hts.append hus)
        refine ⟨_, ?_, .cond _ hc hyes⟩
        simpa only [List.cons_append, List.append_assoc, List.nil_append] using hall
  · next hk =>
      rw [reads_advance_bind_iff] at h
      obtain ⟨c, t₁, hc, h⟩ := reads_bind_iff.1 h
      obtain ⟨body, t₂, hbody, h⟩ := reads_bind_iff.1 h
      obtain ⟨rfl, rfl⟩ := reads_spanned_iff.1 h
      obtain ⟨ts, hts, hc⟩ := spells_of_reads_condition hc
      obtain ⟨us, hus, hbody⟩ := ih.stmt hbody hclean
      have hall := Took.cons hk TokenKind.noConfusion (hts.append hus)
      refine ⟨_, ?_, .loop _ hc hbody⟩
      simpa only [List.cons_append, List.append_assoc, List.nil_append] using hall
  · next hk =>
      rw [reads_advance_bind_iff] at h
      obtain ⟨body, t₁, hbody, h⟩ := reads_bind_iff.1 h
      obtain ⟨_, t₂, hwhile, h⟩ := reads_bind_iff.1 h
      obtain ⟨c, t₃, hc, h⟩ := reads_bind_iff.1 h
      obtain ⟨hclose, rfl⟩ := reads_closed_iff.1 h
      have hwhile := reads_expectKeyword_iff.1 hwhile
      obtain ⟨us, hus, hc⟩ := spells_of_reads_condition hc
      have hbehind := hwhile.append (hus.append hclose)
      obtain ⟨ts, hts, hbody⟩ := ih.stmt hbody (hbehind.clean hclean)
      have hall := Took.cons hk TokenKind.noConfusion (hts.append hbehind)
      refine ⟨_, ?_, .doLoop _ hbody hc⟩
      simpa only [List.cons_append, List.append_assoc, List.nil_append] using hall
  · next hk =>
      rw [reads_advance_bind_iff] at h
      obtain ⟨_, t₁, hleft, h⟩ := reads_bind_iff.1 h
      obtain ⟨init, t₂, hinit, h⟩ := reads_bind_iff.1 h
      obtain ⟨_, t₃, hfirst, h⟩ := reads_bind_iff.1 h
      obtain ⟨c, t₄, hc, h⟩ := reads_bind_iff.1 h
      obtain ⟨_, t₅, hsecond, h⟩ := reads_bind_iff.1 h
      obtain ⟨ts, hts, hinit⟩ := spells_of_reads_forInit hinit
      obtain ⟨us, hus, hc⟩ := spells_of_reads_exprUnless hc
      obtain ⟨steps, t₆, hsteps, h⟩ := reads_choice_bind_iff.1 h
      obtain ⟨_, t₇, hright, h⟩ := reads_bind_iff.1 h
      obtain ⟨body, t₈, hbody, h⟩ := reads_bind_iff.1 h
      obtain ⟨rfl, rfl⟩ := reads_spanned_iff.1 h
      obtain ⟨vs, hvs, hsteps⟩ := spells_of_reads_steps hsteps
      obtain ⟨ws, hws, hbody⟩ := ih.stmt hbody hclean
      have hfront := (reads_expect_iff.1 hleft).append (hts.append (reads_expect_iff.1 hfirst))
      have hback := (reads_expect_iff.1 hsecond).append (hvs.append (reads_expect_iff.1 hright))
      have hparts := hfront.append (hus.append (hback.append hws))
      have hall := Took.cons hk TokenKind.noConfusion hparts
      refine ⟨_, ?_, .forLoop _ hinit hc hsteps hbody⟩
      simpa only [List.cons_append, List.append_assoc, List.nil_append] using hall
  · next hk =>
      rw [reads_advance_bind_iff] at h
      obtain ⟨value, t₁, hvalue, h⟩ := reads_bind_iff.1 h
      obtain ⟨hclose, rfl⟩ := reads_closed_iff.1 h
      obtain ⟨ts, hts, hvalue⟩ := spells_of_reads_exprUnless hvalue
      exact ⟨_, .cons hk TokenKind.noConfusion (hts.append hclose), .ret _ hvalue⟩
  · next hk =>
      rw [reads_advance_bind_iff] at h
      obtain ⟨value, t₁, hvalue, h⟩ := reads_bind_iff.1 h
      obtain ⟨hclose, rfl⟩ := reads_closed_iff.1 h
      obtain ⟨ts, hts, hvalue⟩ := (soundExprs n).expr hvalue
      exact ⟨_, .cons hk TokenKind.noConfusion (hts.append hclose), .throw _ hvalue⟩
  · next hk =>
      rw [reads_advance_bind_iff] at h
      obtain ⟨hclose, rfl⟩ := reads_closed_iff.1 h
      exact ⟨_, .cons hk TokenKind.noConfusion hclose, .leave _⟩
  · next hk =>
      rw [reads_advance_bind_iff] at h
      obtain ⟨hclose, rfl⟩ := reads_closed_iff.1 h
      exact ⟨_, .cons hk TokenKind.noConfusion hclose, .next _⟩
  · split at h
    · obtain ⟨d, t₁, hd, h⟩ := reads_bind_iff.1 h
      obtain ⟨hclose, rfl⟩ := reads_closed_iff.1 h
      obtain ⟨ts, hts, hd⟩ := spells_of_reads_locals hd
      exact ⟨_, hts.append hclose, .locals _ hd⟩
    · obtain ⟨e, t₁, he, h⟩ := reads_bind_iff.1 h
      obtain ⟨hclose, rfl⟩ := reads_closed_iff.1 h
      obtain ⟨ts, hts, he⟩ := (soundExprs n).expr he
      exact ⟨_, hts.append hclose, .expr _ he⟩

end SoundStmts

theorem soundStmts (n : Nat) : SoundStmts n := by
  induction n with
  | zero => exact .zero
  | succ n ih => exact ⟨ih.stmt_succ, ih.block_succ, ih.stmts_succ⟩

end Scriptlet.Parser
