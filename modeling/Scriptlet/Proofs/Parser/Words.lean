import Scriptlet.Proofs.Parser.Grammar.Source
import Scriptlet.Proofs.Parser.Run

namespace Scriptlet.Parser

/-!
# Paths, types and modifiers

The parts of a program that are read by looking at the tokens ahead, and what is spelled there.
-/

open Scriptlet.Tree (Ident TypeRef)

section

variable {s s' : State} {k : TokenKind} {ts : List TokenKind}

theorem Took.uncons (h : Took (k :: ts) s s') :
    ∃ span rest, s.rest = ⟨k, span⟩ :: rest ∧ s.advance.rest = rest ∧ Took ts s.advance s' := by
  cases h with
  | cons hk hend h =>
      obtain ⟨⟨_, span⟩, rest, hrest, rfl, hadvance⟩ := exists_token hk hend
      exact ⟨span, rest, hrest, by rw [hadvance], h⟩

theorem rest_eq_cons {span : Text.Span} {rest : List Token} (hrest : s.rest = ⟨k, span⟩ :: rest) :
    s.kind = k ∧ (k ≠ .eof → s.advance.rest = rest) := by
  have hk : s.kind = k := by
    rw [State.kind, State.ahead, hrest]
    rfl
  refine ⟨hk, fun hend => ?_⟩
  obtain ⟨_, _, hcons, -, hadvance⟩ := exists_token hk hend
  rw [hrest] at hcons
  rw [hadvance]
  exact (List.cons.inj hcons).2.symm

theorem rest_ne_of_kind_ne {span : Text.Span} {rest : List Token} (h : s.kind ≠ k) :
    s.rest ≠ ⟨k, span⟩ :: rest := by
  intro hrest
  exact h (rest_eq_cons hrest).1

end

/-- The names of a path behind its first one, with their points. -/
def tailSpelling (path : List Ident) : List TokenKind :=
  path.flatMap fun i => [.mark .dot, .ident i.name]

theorem tailSpelling_cons (i : Ident) (path : List Ident) :
    tailSpelling (i :: path) = .mark .dot :: .ident i.name :: tailSpelling path := rfl

theorem reads_advanceBy_add_two {n : Nat} {s s' : State} {u : Unit} :
    Reads (advanceBy (2 * (n + 1))) s u s' ↔ Reads (advanceBy (2 * n)) s.advance.advance u s' := by
  have hsucc : advanceBy (2 * (n + 1)) = (advance >>= fun _ => advance >>= fun _ =>
      advanceBy (2 * n)) := rfl
  rw [hsucc, reads_advance_bind_iff, reads_advance_bind_iff]

theorem took_pathTail {s s' : State} {u : Unit}
    (h : Reads (advanceBy (2 * (pathTail s.rest).length)) s u s') :
    Took (tailSpelling (pathTail s.rest)) s s' := by
  generalize hrest : s.rest = rest at h ⊢
  induction rest using pathTail.induct generalizing s with
  | case1 dotSpan name span rest ih =>
      obtain ⟨hdot, hname⟩ := rest_eq_cons hrest
      obtain ⟨hident, htail⟩ := rest_eq_cons (hname TokenKind.noConfusion)
      rw [pathTail, List.length_cons, reads_advanceBy_add_two] at h
      rw [pathTail, tailSpelling_cons]
      have hrest := ih (htail TokenKind.noConfusion) h
      exact .cons hdot TokenKind.noConfusion (.cons hident TokenKind.noConfusion hrest)
  | case2 rest hne =>
      have hnil : pathTail rest = [] := by
        unfold pathTail
        split
        · exact absurd rfl (hne _ _ _ _)
        · rfl
      rw [hnil] at h ⊢
      obtain ⟨-, rfl⟩ := reads_pure_iff.1 h
      exact .nil s

/-- The path at the front of the tokens, if no further name follows. -/
theorem exists_pathTail {path : List Ident} {s s' : State} (h : Took (tailSpelling path) s s')
    (hdot : s'.kind ≠ .mark .dot) :
    Reads (advanceBy (2 * (pathTail s.rest).length)) s () s' ∧
      (pathTail s.rest).map Ident.name = path.map Ident.name := by
  induction path generalizing s with
  | nil =>
      obtain rfl := h.eq_of_nil
      have hnil : pathTail s.rest = [] := by
        unfold pathTail
        split
        · next hrest => exact absurd hrest (rest_ne_of_kind_ne hdot)
        · rfl
      rw [hnil]
      exact ⟨reads_pure_iff.2 ⟨rfl, rfl⟩, rfl⟩
  | cons i path ih =>
      rw [tailSpelling_cons] at h
      obtain ⟨_, _, hrest, hadvance, h⟩ := h.uncons
      obtain ⟨span, _, hrest', hadvance', h⟩ := h.uncons
      obtain ⟨hread, hnames⟩ := ih h
      have hpath : pathTail s.rest = ⟨i.name, span⟩ :: pathTail s.advance.advance.rest := by
        rw [hrest, ← hadvance, hrest', pathTail, hadvance']
      rw [hpath, List.length_cons, reads_advanceBy_add_two, List.map_cons, List.map_cons, hnames]
      exact ⟨hread, rfl⟩

/-- A type is read from its spelling. -/
theorem took_of_reads_typeRef {s s' : State} {t : TypeRef} (h : Reads typeRef s t s') :
    t.Proper ∧ Took t.spelling s s' := by
  unfold typeRef at h
  rw [reads_get_bind_iff] at h
  split at h
  · next hk =>
      rw [reads_advance_bind_iff, reads_pure_iff] at h
      obtain ⟨rfl, rfl⟩ := h
      exact ⟨Tree.TypeShape.noConfusion, .one hk TokenKind.noConfusion⟩
  · next name hk =>
      rw [reads_advance_bind_iff, reads_get_bind_iff] at h
      obtain ⟨u, t', htail, h⟩ := reads_bind_iff.1 h
      obtain ⟨span, t'', hspan, h⟩ := reads_bind_iff.1 h
      obtain ⟨-, rfl⟩ := reads_spanFrom_iff.1 hspan
      obtain ⟨rfl, rfl⟩ := reads_pure_iff.1 h
      refine ⟨fun hnil => ?_, .cons hk TokenKind.noConfusion (took_pathTail htail)⟩
      cases hnil
  · split at h
    · next b hb =>
        rw [reads_advance_bind_iff, reads_pure_iff] at h
        obtain ⟨rfl, rfl⟩ := h
        exact ⟨Tree.TypeShape.noConfusion, .one (basicType?_eq_some_iff.1 hb) TokenKind.noConfusion⟩
    · exact absurd h not_reads_fail

theorem atCast_iff {s : State} :
    s.atCast = true ↔ ∃ b : BasicType, s.kind = .mark .leftParen ∧
      s.advance.kind = .keyword b.word ∧ s.advance.advance.kind = .mark .rightParen := by
  unfold State.atCast
  rw [Bool.and_eq_true, Bool.and_eq_true, atMark_iff, Option.isSome_iff_exists, beq_iff_eq]
  constructor
  · rintro ⟨⟨hleft, b, hb⟩, hright⟩
    have hend : s.kind ≠ .eof := hleft ▸ TokenKind.noConfusion
    rw [ahead_succ hend] at hb hright
    have hword := basicType?_eq_some_iff.1 hb
    have hend' : s.advance.kind ≠ .eof := by
      rw [State.kind, hword]
      exact TokenKind.noConfusion
    rw [ahead_succ hend'] at hright
    exact ⟨b, hleft, hword, hright⟩
  · rintro ⟨b, hleft, hword, hright⟩
    have hend : s.kind ≠ .eof := hleft ▸ TokenKind.noConfusion
    have hend' : s.advance.kind ≠ .eof := hword ▸ TokenKind.noConfusion
    rw [ahead_succ hend, ahead_succ hend, ahead_succ hend']
    exact ⟨⟨hleft, b, basicType?_eq_some_iff.2 hword⟩, hright⟩

/-- A type that begins with the word for a basic type is that type. -/
theorem shape_eq_basic {t : TypeRef} {b : BasicType} {s s' : State} (ht : t.Proper)
    (htook : Took t.spelling s s') (hk : s.kind = .keyword b.word) : t.shape = .basic b := by
  unfold TypeRef.spelling at htook
  cases hshape : t.shape with
  | void =>
      rw [hshape] at htook
      cases htook with
      | cons hvoid _ _ =>
          rw [hk] at hvoid
          cases b <;> cases hvoid
  | basic c =>
      rw [hshape] at htook
      cases htook with
      | cons hword _ _ =>
          have hc := basicType?_eq_some_iff.2 hword
          rw [basicType?_eq_some_iff.2 hk] at hc
          rw [Option.some.inj hc]
  | named path =>
      rw [hshape] at htook
      cases path with
      | nil => exact absurd hshape ht
      | cons i path =>
          cases htook with
          | cons hident _ _ =>
              rw [hk] at hident
              cases hident

theorem Took.reads_advanceBy {ts : List TokenKind} {s s' : State} (h : Took ts s s') :
    Reads (advanceBy ts.length) s () s' := by
  induction h with
  | nil s => exact reads_pure_iff.2 ⟨rfl, rfl⟩
  | cons _ _ _ ih => exact Reads.advance_bind ih

/-- Each word adds its modifier. -/
theorem foldl_addModifier (words : List Keyword) (m : Tree.Modifiers) :
    words.foldl addModifier m =
      ⟨m.isPublic || words.contains .kwPublic, m.isPrivate || words.contains .kwPrivate,
        m.isInternal || words.contains .kwInternal, m.isProtected || words.contains .kwProtected,
        m.isStatic || words.contains .kwStatic⟩ := by
  induction words generalizing m with
  | nil => simp
  | cons k words ih =>
      rw [List.foldl_cons, ih]
      cases k <;> simp [addModifier]

theorem modifiersOf_of_took {words : List Keyword} (hwords : ∀ k ∈ words, k.isModifier = true)
    {s s' : State} (h : Took (words.map .keyword) s s') (hend : s'.kind.isModifier = false)
    (m : Tree.Modifiers) (count : Nat) :
    modifiersOf m count s.rest = (words.foldl addModifier m, count + words.length) := by
  induction words generalizing s m count with
  | nil =>
      obtain rfl := h.eq_of_nil
      unfold modifiersOf
      split
      · next k _ _ hrest =>
          obtain ⟨hk, -⟩ := rest_eq_cons hrest
          rw [hk, TokenKind.isModifier] at hend
          rw [if_neg (Bool.eq_false_iff.1 hend)]
          rfl
      · rfl
  | cons k words ih =>
      obtain ⟨hk, hwords⟩ := List.forall_mem_cons.1 hwords
      obtain ⟨span, rest, hrest, hadvance, h⟩ := h.uncons
      rw [hrest, modifiersOf, if_pos hk, ← hadvance, ih hwords h, List.foldl_cons,
        List.length_cons, Nat.add_assoc, Nat.add_comm 1]

theorem reads_modifiers {words : List Keyword} (hwords : ∀ k ∈ words, k.isModifier = true)
    {s s' : State} (h : Took (words.map .keyword) s s') (hend : s'.kind.isModifier = false) :
    Reads modifiers s (Grammar.modifiersOfWords words) s' := by
  have hmany := modifiersOf_of_took hwords h hend .none 0
  have hread := h.reads_advanceBy
  have hsame : words.foldl addModifier .none = Grammar.modifiersOfWords words := by
    rw [foldl_addModifier]
    rfl
  unfold modifiers
  refine Reads.get_bind ?_
  rw [hmany, hsame]
  dsimp only
  rw [List.length_map] at hread
  rw [Nat.zero_add]
  exact hread.bind (reads_pure_iff.2 ⟨rfl, rfl⟩)

/-- The words for modifiers at the front. -/
theorem exists_words (s : State) : ∃ (words : List Keyword) (s' : State),
    (∀ k ∈ words, k.isModifier = true) ∧ Took (words.map .keyword) s s' ∧
      s'.kind.isModifier = false := by
  generalize hn : s.rest.length = n
  induction n generalizing s with
  | zero =>
      have hkind : s.kind = .eof := by
        rw [State.kind, State.ahead, List.eq_nil_of_length_eq_zero hn]
        rfl
      exact ⟨[], s, fun _ hk => absurd hk List.not_mem_nil, .nil s, hkind ▸ rfl⟩
  | succ n ih =>
      cases hk : s.kind.isModifier with
      | false => exact ⟨[], s, fun _ hk => absurd hk List.not_mem_nil, .nil s, hk⟩
      | true =>
          obtain ⟨k, hkind⟩ : ∃ k, s.kind = .keyword k := by
            cases hs : s.kind with
            | keyword k => exact ⟨k, rfl⟩
            | _ =>
                rw [hs] at hk
                cases hk
          rw [hkind] at hk
          obtain ⟨_, rest, hrest, -, hadvance⟩ := exists_token hkind TokenKind.noConfusion
          have hlength : s.advance.rest.length = n := by
            rw [hrest, List.length_cons] at hn
            rw [hadvance]
            exact Nat.succ.inj hn
          obtain ⟨words, s', hwords, htook, hend⟩ := ih s.advance hlength
          exact ⟨k :: words, s', List.forall_mem_cons.2 ⟨hk, hwords⟩,
            .cons hkind TokenKind.noConfusion htook, hend⟩

/-- Modifiers are read from their words. -/
theorem spells_of_reads_modifiers {m : Tree.Modifiers} {s s' : State} (h : Reads modifiers s m s') :
    ∃ ts, Took ts s s' ∧ Grammar.SpellsModifiers m ts := by
  obtain ⟨words, t, hwords, htook, hend⟩ := exists_words s
  obtain ⟨rfl, rfl⟩ := h.unique (reads_modifiers hwords htook hend)
  exact ⟨_, htook, .words words hwords⟩

/-- A method behind its modifiers. -/
def methodRest (n : Nat) (start : Text.Span) (mods : Tree.Modifiers) : Parser Tree.Method := do
  let result ← typeRef
  let name ← ident
  requireMethod name
  let ps ← params n
  let body ← block n
  return ⟨mods, result, name, ps, body, ← spanFrom start⟩

/-- A constructor or a class comes next. -/
def State.atConstructor (s : State) : Prop :=
  ∃ name, s.kind = .ident name ∧ s.ahead 1 = .mark .leftParen

theorem reads_method_iff {n : Nat} {s s' : State} {m : Tree.Method} :
    Reads (method n) s m s' ↔ ∃ mods t, Reads modifiers s mods t ∧
      t.kind ≠ .keyword .kwClass ∧ ¬t.atConstructor ∧ Reads (methodRest n s.span mods) t m s' := by
  unfold method
  rw [reads_get_bind_iff, reads_bind_iff]
  refine exists_congr fun mods => exists_congr fun t => and_congr_right fun _ => ?_
  rw [reads_get_bind_iff]
  by_cases hclass : t.atKeyword .kwClass = true
  · rw [if_pos hclass]
    refine iff_of_false (fun h => ?_) fun h => h.1 (atKeyword_iff.1 hclass)
    obtain ⟨_, _, hfail, -⟩ := reads_bind_iff.1 h
    exact not_reads_fail hfail
  · rw [if_neg hclass]
    have hkind := mt atKeyword_iff.2 hclass
    split
    · next name hname hleft =>
        refine iff_of_false (fun h => ?_) fun h => h.2.1 ⟨name, hname, hleft⟩
        obtain ⟨_, _, hfail, -⟩ := reads_bind_iff.1 h
        exact not_reads_fail hfail
    · next hother =>
        refine ⟨fun h => ⟨hkind, fun ⟨name, hname, hleft⟩ => hother name hname hleft, h⟩,
          fun h => h.2.2⟩

end Scriptlet.Parser

namespace Scriptlet

/-- Tokens with an end behind them are parsed as they are. -/
theorem withEnd_concat {init : List Token} {last : Token} (hlast : last.kind = .eof) :
    withEnd (init ++ [last]) = init ++ [last] := by
  rw [withEnd, List.getLast?_concat]
  exact if_pos hlast

end Scriptlet
