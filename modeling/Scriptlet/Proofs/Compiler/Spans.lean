import Scriptlet.Compiler
import Scriptlet.Proofs.Parser.Spans
import Scriptlet.Proofs.Token.Faults
import Scriptlet.Proofs.Typing.Places.Source

namespace Scriptlet

/-!
# Spans fit the text

Tokens stand in order in the text, so the parser makes nodes that lie in it, and all that is
reported about tokens or nodes is about places in the text.
-/

open Text (Span byteLength)
open Scriptlet.Tree (Node)

/-- The nodes of which a tree is made. -/
def Tree.Source.nodes (s : Tree.Source) : List Node :=
  s.imports.map .importDecl ++ s.classes.map .cls

section

variable {source : List Char} {before rest : List Token} {d : Diagnostic}

theorem pairwise_before_tokens (source : List Char) :
    (lex source).tokens.Pairwise fun a b => a.span.Before b.span := by
  obtain ⟨front, htokens, hfront⟩ := exists_tokens_lex source
  have hspans : (lex source).tokenSpans = front.map Token.span := by
    have hfilter : front.filter (·.kind ≠ .eof) = front :=
      List.filter_eq_self.2 fun token htoken => by simpa using hfront token htoken
    unfold Lexed.tokenSpans
    rw [htokens, List.filter_append, hfilter, List.filter_cons_of_neg (by simp), List.filter_nil,
      List.append_nil]
  have hordered := pairwise_before_tokenSpans source
  rw [hspans, List.pairwise_map] at hordered
  have hfits (token : Token) (htoken : token ∈ front) : token.span.stop ≤ byteLength source := by
    have hmem : token ∈ (lex source).tokens := htokens ▸ List.mem_append_left _ htoken
    exact (fits_of_mem_tokens hmem).stop_le
  rw [htokens]
  refine List.pairwise_append.2 ⟨hordered, List.pairwise_singleton _ _, fun a ha b hb => ?_⟩
  rw [List.mem_singleton.1 hb]
  exact hfits a ha

namespace Parser

/-- Wherever a parser stands among the tokens of a text, they are in order. -/
theorem placed_of_tokens (h : (lex source).tokens = before ++ rest) (hrest : rest ≠ [])
    (ds : List Diagnostic) :
    Placed source ⟨rest, before.getLast?.map Token.span, ds⟩ := by
  have hordered := pairwise_before_tokens source
  rw [h, List.pairwise_append] at hordered
  obtain ⟨-, hordered, hacross⟩ := hordered
  have hfits (token : Token) (htoken : token ∈ before ++ rest) : token.span.Fits source :=
    fits_of_mem_tokens (h ▸ htoken)
  refine ⟨fun p hp => ?_, hordered, fun p hp token htoken => ?_, ?_⟩
  · obtain hp | ⟨token, htoken, rfl⟩ := hp
    · obtain ⟨last, hlast, rfl⟩ := Option.map_eq_some_iff.1 hp
      exact hfits last (List.mem_append_left _ (List.mem_of_getLast? hlast))
    · exact hfits token (List.mem_append_right _ htoken)
  · obtain ⟨last, hlast, rfl⟩ := Option.map_eq_some_iff.1 hp
    exact hacross last (List.mem_of_getLast? hlast) token htoken
  · obtain ⟨front, htokens, -⟩ := exists_tokens_lex source
    have hlast := congrArg List.getLast? (h.symm.trans htokens)
    rw [List.getLast?_append, List.getLast?_concat] at hlast
    cases hend : rest.getLast? with
    | none => exact absurd (List.getLast?_eq_none_iff.1 hend) hrest
    | some last =>
        rw [hend, Option.some_or] at hlast
        exact ⟨last, List.mem_of_getLast? hend, by rw [Option.some.inj hlast]⟩

theorem Placed.fits_of_shows {s : State} {span : Span} (h : Placed source s)
    (hspan : s.Shows span) : span.Fits source := by
  obtain rfl | ⟨p, hp, rfl | rfl⟩ := hspan
  · exact Span.fits_zero source
  · exact h.fits _ hp
  · exact Span.fits_point (h.fits _ hp).stop

end Parser

theorem withEnd_tokens (source : List Char) :
    withEnd (lex source).tokens = (lex source).tokens := by
  obtain ⟨front, htokens, -⟩ := exists_tokens_lex source
  unfold withEnd
  rw [htokens, List.getLast?_concat]
  rfl

/-- The parser makes a tree that lies in the text, and reports what is wrong there. -/
theorem sound_parse (source : List Char) :
    (∀ n ∈ (parse (lex source).tokens).source.nodes, n.Sound source) ∧
      ∀ d ∈ (parse (lex source).tokens).diagnostics, d.span.Fits source := by
  have hne : (lex source).tokens ≠ [] := by
    obtain ⟨front, htokens, -⟩ := exists_tokens_lex source
    rw [htokens]
    exact List.append_ne_nil_of_right_ne_nil _ (List.cons_ne_nil _ _)
  have hplaced := Parser.placed_of_tokens (List.nil_append _).symm hne []
  have houtcome := Parser.gives_source (Parser.depthFor (lex source).tokens.length) hplaced
  have hreports {t : Parser.State}
      (hm : Parser.Moves False False ⟨(lex source).tokens, none, []⟩ t) :
      ∀ d ∈ t.diagnostics, d.span.Fits source := by
    obtain ⟨new, hnew, hshows⟩ := hm.reports
    intro d hd
    rw [hnew] at hd
    exact hplaced.fits_of_shows (hshows d hd).1.1
  unfold parse
  rw [withEnd_tokens]
  dsimp only
  split
  · next tree t hrun =>
      obtain ⟨hm, hlies⟩ := houtcome.reads hrun
      exact ⟨fun n hn => (hlies n hn).sound, hreports hm⟩
  · next f t hrun =>
      obtain ⟨hm, hshows, -⟩ := houtcome.fails hrun
      refine ⟨fun n hn => absurd hn List.not_mem_nil, fun d hd => ?_⟩
      obtain hd | hd := List.mem_append.1 hd
      · exact hreports hm d hd
      · obtain rfl := List.mem_singleton.1 hd
        exact hplaced.fits_of_shows hshows

theorem fits_of_mem_lex_diagnostics (h : d ∈ (lex source).diagnostics) : d.span.Fits source := by
  obtain ⟨⟨text, htext⟩, -⟩ := exists_of_mem_diagnostics_lexFrom h
  exact htext.fits

theorem fits_of_mem_parseText_diagnostics (h : d ∈ (parseText source).diagnostics) :
    d.span.Fits source := by
  obtain h | h := List.mem_append.1 h
  · exact fits_of_mem_lex_diagnostics h
  · exact (sound_parse source).2 d h

theorem fits_of_mem_compile {name : String} {ds : List Diagnostic}
    (h : compile source name = .error ds) (hd : d ∈ ds) : d.span.Fits source := by
  unfold compile compileSource at h
  dsimp only at h
  split at h
  · cases h
    exact fits_of_mem_parseText_diagnostics hd
  · split at h
    · cases h
      obtain ⟨r, hr, rfl⟩ := List.mem_map.1 hd
      refine Typing.fits_checkSource (fun c hc => ?_) r hr
      exact (sound_parse source).1 _ (List.mem_append_right _ (List.mem_map_of_mem hc))
    · cases h

end

/-- Every span fits the text: those of the tokens, those of the nodes of the tree, each of which
holds its parts, and those of all diagnostics. What is read from some place among the tokens lies
there, also if it does not get into the tree, and what is wrong with an escape sequence lies in its
literal. -/
theorem spans_fit_text (source : List Char) (name : String) :
    (∀ token ∈ (lex source).tokens, token.span.Fits source) ∧
    (∀ n ∈ (parseText source).source.nodes, n.Sound source) ∧
    (∀ before rest, (lex source).tokens = before ++ rest → rest ≠ [] → ∀ ds n p a t,
      Parser.Reads (Parser.productions n p) ⟨rest, before.getLast?.map Token.span, ds⟩ a t →
        p.Lies source ⟨rest, before.getLast?.map Token.span, ds⟩ t a) ∧
    (∀ d ∈ (parseText source).diagnostics, d.span.Fits source) ∧
    (∀ ds, compile source name = .error ds → ∀ d ∈ ds, d.span.Fits source) ∧
    ∀ d ∈ (lex source).diagnostics, d.code = ⟨5⟩ →
      ∃ token ∈ (lex source).tokens, token.kind.IsQuoted ∧ d.span.Within token.span := by
  refine ⟨fun token => fits_of_mem_tokens, (sound_parse source).1, ?_,
    fun d => fits_of_mem_parseText_diagnostics, fun ds h d => fits_of_mem_compile h,
    fun d hd => (exists_of_mem_diagnostics_lexFrom hd).2⟩
  intro before rest hsplit hrest ds n p a t hread
  exact (Parser.known_productions source n).lies (Parser.placed_of_tokens hsplit hrest ds) hread

end Scriptlet
