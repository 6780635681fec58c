import Scriptlet.Proofs.Parser.Soundness.Stmt

namespace Scriptlet.Parser

/-!
# What the parser has read

A source that is parsed without a report is spelled by all of its tokens: nothing is dropped, and
nothing is made up.
-/

open Grammar
open Scriptlet.Tree (Import Method Param Source)

section

variable {n : Nat} {s s' : State}

theorem spells_of_reads_param {p : Param} (h : Reads param s p s') :
    ∃ ts, Took ts s s' ∧ SpellsParam p ts := by
  unfold param at h
  obtain ⟨type, t₁, htype, h⟩ := reads_bind_iff.1 h
  obtain ⟨name, t₂, hname, h⟩ := reads_bind_iff.1 h
  obtain ⟨rfl, rfl⟩ := reads_pure_iff.1 h
  obtain ⟨hproper, htype⟩ := took_of_reads_typeRef htype
  obtain ⟨hname, -⟩ := reads_ident_iff.1 hname
  exact ⟨_, htype.append hname, .param name hproper⟩

theorem spells_of_reads_paramList {ps : List Param} (h : Reads (paramList n) s ps s') :
    ∃ ts, Took ts s s' ∧ Separated SpellsParam ps ts :=
  isSeparated_paramList.separated_of_reads spells_of_reads_param h

theorem spells_of_reads_params {ps : List Param} (h : Reads (params n) s ps s') :
    ∃ ts, Took (.mark .leftParen :: ts ++ [.mark .rightParen]) s s' ∧ SpellsParams ps ts := by
  unfold params at h
  obtain ⟨_, t₁, hleft, h⟩ := reads_bind_iff.1 h
  obtain ⟨ps', t₂, hps, h⟩ := reads_choice_bind_iff.1 h
  obtain ⟨_, t₃, hright, h⟩ := reads_bind_iff.1 h
  obtain ⟨rfl, rfl⟩ := reads_pure_iff.1 h
  obtain ⟨b, t₄, hmark, hps⟩ := reads_bind_iff.1 hps
  obtain ⟨rfl, rfl⟩ := reads_atMark_iff.1 hmark
  have hleft := reads_expect_iff.1 hleft
  have hright := reads_expect_iff.1 hright
  split at hps
  · obtain ⟨rfl, rfl⟩ := reads_pure_iff.1 hps
    exact ⟨[], hleft.append hright, .none⟩
  · obtain ⟨ts, hts, hps⟩ := spells_of_reads_paramList hps
    exact ⟨ts, hleft.append (hts.append hright), .some hps⟩

theorem eq_of_reads_requireMethod {name : Tree.Ident} {u : Unit}
    (h : Reads (requireMethod name) s u s') : s = s' := by
  unfold requireMethod at h
  rw [reads_get_bind_iff] at h
  split at h
  iterate 4 exact absurd h not_reads_fail
  exact (reads_pure_iff.1 h).2

theorem spells_of_reads_method {m : Method} (h : Reads (method n) s m s')
    (hclean : s'.diagnostics = []) : ∃ ts, Took ts s s' ∧ SpellsMethod m ts := by
  obtain ⟨mods, t, hmods, -, -, h⟩ := reads_method_iff.1 h
  unfold methodRest at h
  obtain ⟨result, t₁, hresult, h⟩ := reads_bind_iff.1 h
  obtain ⟨name, t₂, hname, h⟩ := reads_bind_iff.1 h
  obtain ⟨_, t₃, hrequire, h⟩ := reads_bind_iff.1 h
  obtain ⟨ps, t₄, hps, h⟩ := reads_bind_iff.1 h
  obtain ⟨body, t₅, hbody, h⟩ := reads_bind_iff.1 h
  obtain ⟨rfl, rfl⟩ := reads_spanned_iff.1 h
  obtain rfl := eq_of_reads_requireMethod hrequire
  obtain ⟨ms, hms, hmods⟩ := spells_of_reads_modifiers hmods
  obtain ⟨hproper, hresult⟩ := took_of_reads_typeRef hresult
  obtain ⟨hname, -⟩ := reads_ident_iff.1 hname
  obtain ⟨us, hus, hps⟩ := spells_of_reads_params hps
  obtain ⟨ts, hts, hbody⟩ := (soundStmts n).block hbody hclean
  obtain ⟨statements, bspan⟩ := body
  have hhead := hms.append (hresult.append (hname.append hus))
  refine ⟨_, ?_, .method name bspan _ hmods hproper hps hbody⟩
  simpa only [List.cons_append, List.append_assoc, List.nil_append] using hhead.append hts

theorem spells_of_reads_methods {ms : List Method} (h : Reads (methods n) s ms s')
    (hclean : s'.diagnostics = []) : ∃ ts, Took ts s s' ∧ Sequence SpellsMethod ms ts :=
  (isSequence_methods.sequence_of_reads (fun _ => spells_of_reads_method) h hclean).2

theorem spells_of_reads_cls {c : Tree.Class} (h : Reads (cls n) s c s')
    (hclean : s'.diagnostics = []) : ∃ ts, Took ts s s' ∧ SpellsClass c ts := by
  unfold cls at h
  rw [reads_get_bind_iff] at h
  dsimp only at h
  obtain ⟨mods, t₁, hmods, h⟩ := reads_bind_iff.1 h
  obtain ⟨b, t₂, haccept, h⟩ := reads_bind_iff.1 h
  obtain ⟨rfl, hclass⟩ | ⟨rfl, -, rfl⟩ := reads_acceptKeyword_iff.1 haccept
  · obtain ⟨name, t₃, hname, h⟩ := reads_bind_iff.1 h
    obtain ⟨_, t₄, hleft, h⟩ := reads_bind_iff.1 h
    obtain ⟨ms, t₅, hms, h⟩ := reads_bind_iff.1 h
    obtain ⟨r, t₆, hclose, h⟩ := reads_bind_iff.1 h
    obtain ⟨rfl, rfl⟩ := reads_spanned_iff.1 h
    obtain ⟨_, rfl, hread⟩ := reads_of_recovering (fun _ => rfl) hclose hclean
    have hright := reads_expect_iff.1 hread
    obtain ⟨us, hus, hmods⟩ := spells_of_reads_modifiers hmods
    obtain ⟨hname, -⟩ := reads_ident_iff.1 hname
    obtain ⟨ts, hts, hms⟩ := spells_of_reads_methods hms (hright.clean hclean)
    have hhead := hus.append (hclass.append (hname.append (reads_expect_iff.1 hleft)))
    refine ⟨_, ?_, .cls name _ hmods hms⟩
    simpa only [List.cons_append, List.append_assoc, List.nil_append]
      using hhead.append (hts.append hright)
  · obtain ⟨_, _, hfail, -⟩ := reads_bind_iff.1 h
    exact absurd hfail not_reads_failHere

theorem took_of_reads_importPath {path : List Tree.Ident} (h : Reads (importPath n) s path s') :
    Took (tailSpelling path) s s' := by
  induction n generalizing s path with
  | zero => exact absurd h not_reads_failHere
  | succ n ih =>
      rw [importPath] at h
      obtain ⟨b, t₁, haccept, h⟩ := reads_bind_iff.1 h
      obtain ⟨rfl, hdot⟩ | ⟨rfl, -, rfl⟩ := reads_accept_iff.1 haccept
      · rw [if_pos rfl] at h
        obtain ⟨name, t₂, hname, h⟩ := reads_bind_iff.1 h
        obtain ⟨others, t₃, hothers, h⟩ := reads_bind_iff.1 h
        obtain ⟨rfl, rfl⟩ := reads_pure_iff.1 h
        obtain ⟨hname, -⟩ := reads_ident_iff.1 hname
        exact hdot.append (hname.append (ih hothers))
      · rw [if_neg Bool.false_ne_true] at h
        obtain ⟨rfl, rfl⟩ := reads_pure_iff.1 h
        exact .nil s

theorem spells_of_reads_importDecl {i : Import} (hk : s.kind = .keyword .kwUsing)
    (h : Reads (importDecl n) s i s') : ∃ ts, Took ts s s' ∧ SpellsImport i ts := by
  unfold importDecl at h
  rw [reads_get_bind_iff] at h
  dsimp only at h
  rw [reads_advance_bind_iff] at h
  obtain ⟨first, t₁, hfirst, h⟩ := reads_bind_iff.1 h
  obtain ⟨path, t₂, hpath, h⟩ := reads_bind_iff.1 h
  obtain ⟨hclose, rfl⟩ := reads_closed_iff.1 h
  obtain ⟨hfirst, -⟩ := reads_ident_iff.1 hfirst
  have hnames := hfirst.append (took_of_reads_importPath hpath)
  exact ⟨_, .cons hk TokenKind.noConfusion (hnames.append hclose), .path first path _⟩

theorem spells_of_reads_imports {is : List Import} (h : Reads (imports n) s is s')
    (hclean : s'.diagnostics = []) : ∃ ts, Took ts s s' ∧ Sequence SpellsImport is ts := by
  refine (isSequence_imports.sequence_of_reads (fun hgoes hread _ => ?_) h hclean).2
  rw [Bool.not_eq_false'] at hgoes
  exact spells_of_reads_importDecl (atKeyword_iff.1 hgoes) hread

/-- Classes are read up to the end of the text. -/
theorem spells_of_reads_classes {cs : List Tree.Class} (h : Reads (classes n) s cs s')
    (hclean : s'.diagnostics = []) :
    s'.kind = .eof ∧ ∃ ts, Took ts s s' ∧ Sequence SpellsClass cs ts := by
  obtain ⟨hend, hspells⟩ :=
    isSequence_classes.sequence_of_reads (fun _ => spells_of_reads_cls) h hclean
  exact ⟨atEnd_iff.1 hend, hspells⟩

theorem spells_of_reads_source {u : Source} (h : Reads (source n) s u s')
    (hclean : s'.diagnostics = []) :
    s'.kind = .eof ∧ ∃ ts, Took ts s s' ∧ SpellsSource u ts := by
  unfold source at h
  obtain ⟨is, t₁, his, h⟩ := reads_bind_iff.1 h
  obtain ⟨cs, t₂, hcs, h⟩ := reads_bind_iff.1 h
  obtain ⟨rfl, rfl⟩ := reads_pure_iff.1 h
  obtain ⟨hend, us, hus, hcs⟩ := spells_of_reads_classes hcs hclean
  obtain ⟨ts, hts, his⟩ := spells_of_reads_imports his (hus.clean hclean)
  exact ⟨hend, _, hts.append hus, .source his hcs⟩

end

end Scriptlet.Parser

namespace Scriptlet

open Scriptlet.Parser (Took)

end Scriptlet
