import Scriptlet.Proofs.Parser.Nodes
import Scriptlet.Proofs.Parser.Progress

namespace Scriptlet.Parser

/-!
# Where parsers stand

Parsers move over tokens that stand one behind the other in a text. What they have read lies between
the token at which they began and the last one that they have read.
-/

open Text (Span)
open Scriptlet.Tree (Node LieIn)

/-- A state whose tokens, the last one read included, stand in order in a text, with an end. -/
structure Placed (source : List Char) (s : State) : Prop where
  fits : ∀ p, s.Sees p → p.Fits source
  ordered : s.rest.Pairwise fun a b => a.span.Before b.span
  behind : ∀ p, s.previous = some p → ∀ token ∈ s.rest, p.Before token.span
  ends : ∃ token ∈ s.rest, token.kind = .eof

/-- A state that another one has moved on to, and how the tokens at which both stand are placed. -/
structure Reaches (source : List Char) (s t : State) : Prop where
  placed : Placed source t
  places : t.rest.length ≤ s.rest.length ∧ s.lastSpan.stop ≤ s.span.start ∧
    s.span.start ≤ t.span.start ∧
    s.lastSpan.start ≤ t.lastSpan.start ∧ s.lastSpan.stop ≤ t.lastSpan.stop ∧
    t.lastSpan.start ≤ t.lastSpan.stop ∧
    t.lastSpan.stop ≤ t.span.start ∧ (t.rest.length < s.rest.length →
      s.span.start ≤ t.lastSpan.start ∧ s.span.stop ≤ t.lastSpan.stop)

section

variable {source : List Char} {s t : State} {read : List Token} {token : Token}

namespace Placed

theorem fits_lastSpan (h : Placed source s) : s.lastSpan.Fits source := by
  unfold State.lastSpan
  cases hp : s.previous with
  | none => exact Span.fits_zero source
  | some p => exact h.fits p (.inl hp)

theorem fits_span (h : Placed source s) : s.span.Fits source := by
  obtain ⟨token, htoken, -⟩ := h.ends
  unfold State.span
  split
  · next token rest hrest => exact h.fits _ (.inr ⟨token, hrest ▸ List.mem_cons_self, rfl⟩)
  · exact Span.fits_zero source

theorem fits_of_mem (h : Placed source s) (htoken : token ∈ s.rest) : token.span.Fits source :=
  h.fits _ (.inr ⟨token, htoken, rfl⟩)

theorem exists_span (h : Placed source s) :
    ∃ token rest, s.rest = token :: rest ∧ s.span = token.span := by
  obtain ⟨token, htoken, -⟩ := h.ends
  cases hrest : s.rest with
  | nil =>
      rw [hrest] at htoken
      exact absurd htoken List.not_mem_nil
  | cons token rest =>
      refine ⟨token, rest, rfl, ?_⟩
      unfold State.span
      rw [hrest]

theorem le_of_mem (h : Placed source s) (htoken : token ∈ s.rest) :
    s.span.start ≤ token.span.start ∧ s.span.stop ≤ token.span.stop ∧
      s.lastSpan.stop ≤ token.span.start := by
  have hordered := h.ordered
  obtain ⟨first, rest, hrest, hspan⟩ := h.exists_span
  have hfirst : first.span.start ≤ token.span.start ∧ first.span.stop ≤ token.span.stop := by
    rw [hrest] at htoken hordered
    obtain rfl | hmem := List.mem_cons.1 htoken
    · exact ⟨Nat.le.refl, Nat.le.refl⟩
    · have hbefore := (List.pairwise_cons.1 hordered).1 token hmem
      have hle := (h.fits_of_mem (hrest ▸ List.mem_cons_self : first ∈ s.rest)).ordered
      have hle' := (h.fits_of_mem (hrest ▸ htoken : token ∈ s.rest)).ordered
      unfold Span.Before at hbefore
      omega
  rw [hspan]
  refine ⟨hfirst.1, hfirst.2, ?_⟩
  unfold State.lastSpan
  cases hp : s.previous with
  | none => exact Nat.zero_le _
  | some p => exact h.behind p hp token htoken

theorem gap (h : Placed source s) : s.lastSpan.stop ≤ s.span.start := by
  obtain ⟨first, rest, hrest, hspan⟩ := h.exists_span
  rw [hspan]
  exact (h.le_of_mem (hrest ▸ List.mem_cons_self : first ∈ s.rest)).2.2

theorem crosses (h : Placed source s) (hread : Crosses read s t) : Placed source t := by
  have hordered := h.ordered
  rw [hread.rest, List.pairwise_append] at hordered
  obtain ⟨-, hrest, hacross⟩ := hordered
  refine ⟨fun p hp => h.fits p (hread.sees hp), hrest, fun p hp token htoken => ?_, ?_⟩
  · rw [hread.previous] at hp
    cases hlast : read.getLast? with
    | none =>
        rw [hlast] at hp
        have hmem : token ∈ s.rest := by
          rw [hread.rest]
          exact List.mem_append_right _ htoken
        exact h.behind p hp token hmem
    | some last =>
        rw [hlast] at hp
        obtain rfl : last.span = p := Option.some.inj hp
        exact hacross last (List.mem_of_getLast? hlast) token htoken
  · obtain ⟨token, htoken, hend⟩ := h.ends
    rw [hread.rest] at htoken
    obtain htoken | htoken := List.mem_append.1 htoken
    · exact absurd hend (hread.no_end token htoken)
    · exact ⟨token, htoken, hend⟩

/-- What has been read ends with the last token at the latest. -/
theorem stop_le_of_mem (h : Placed source s) (hread : Crosses read s t) (htoken : token ∈ read) :
    token.span.stop ≤ t.lastSpan.stop := by
  cases hlast : read.getLast? with
  | none =>
      rw [List.getLast?_eq_none_iff.1 hlast] at htoken
      exact absurd htoken List.not_mem_nil
  | some last =>
      have hsame : t.lastSpan = last.span := by
        unfold State.lastSpan
        rw [hread.previous, hlast]
        rfl
      obtain ⟨front, rfl⟩ := List.getLast?_eq_some_iff.1 hlast
      rw [hsame]
      obtain hfront | hmem := List.mem_append.1 htoken
      · have hordered := h.ordered
        rw [hread.rest, List.pairwise_append, List.pairwise_append] at hordered
        have hbefore := hordered.1.2.2 token hfront last List.mem_cons_self
        have hmem : last ∈ s.rest := by
          rw [hread.rest]
          exact List.mem_append_left _ (List.mem_append_right _ List.mem_cons_self)
        exact Nat.le_trans hbefore (h.fits_of_mem hmem).ordered
      · obtain rfl := List.mem_singleton.1 hmem
        exact Nat.le.refl

theorem reaches (h : Placed source s) (hread : Crosses read s t) : Reaches source s t := by
  have ht := h.crosses hread
  refine ⟨ht, ?_⟩
  obtain ⟨next, rest, hrest, hspan⟩ := ht.exists_span
  have hnext : next ∈ s.rest := by
    rw [hread.rest, hrest]
    exact List.mem_append_right _ List.mem_cons_self
  have hlength := hread.length_eq
  have hstart := (h.le_of_mem hnext).1
  have hfront := h.gap
  have hgap := ht.gap
  have hlast := h.fits_lastSpan.ordered
  have hlast' := ht.fits_lastSpan.ordered
  rw [hspan] at hgap ⊢
  cases hread' : read.getLast? with
  | none =>
      have hsame : t.lastSpan = s.lastSpan := by
        unfold State.lastSpan
        rw [hread.previous, hread']
        rfl
      rw [List.getLast?_eq_none_iff.1 hread', List.length_nil] at hlength
      rw [hsame] at hgap hlast' ⊢
      omega
  | some last =>
      have hsame : t.lastSpan = last.span := by
        unfold State.lastSpan
        rw [hread.previous, hread']
        rfl
      have hmem : last ∈ s.rest := by
        rw [hread.rest]
        exact List.mem_append_left _ (List.mem_of_getLast? hread')
      have hle := h.le_of_mem hmem
      rw [hsame] at hgap hlast' ⊢
      omega

end Placed

end

/-! ### Outcomes between tokens -/

/-- What a parser comes to from a state whose tokens stand in order in a text. -/
def Gives {α : Type} (source : List Char) (x : Parser α) (s : State) (Q : α → State → Prop) :
    Prop :=
  Placed source s → Outcome False False x x s Q

namespace Gives

variable {α β : Type} {source : List Char} {x y : Parser α} {f : α → Parser β} {s t : State}
  {P Q : α → State → Prop} {R : β → State → Prop} {k : TokenKind}

theorem of (h : Outcome False False x x s Q) : Gives source x s Q :=
  fun _ => h

theorem imp (h : Gives source x s P) (hPQ : ∀ {a t}, P a t → Q a t) : Gives source x s Q :=
  fun hs => (h hs).imp hPQ

theorem pure {a : α} (h : Q a s) : Gives source (pure a) s Q :=
  of (.pure h)

theorem bind (hx : Gives source x s Q)
    (hf : ∀ {a t}, Reaches source s t → Q a t → Gives source (f a) t R) :
    Gives source (x >>= f) s R := by
  intro hs
  refine (hx hs).bind fun hm hQ => ?_
  obtain ⟨read, hread, -⟩ := hm.crosses
  have ht := hs.reaches hread
  exact hf ht hQ ht.placed

theorem get_bind {f : State → Parser β} (hblind : ∀ front, f (s.behind front) = f s)
    (h : Placed source s → Gives source (f s) s R) : Gives source (get >>= f) s R :=
  fun hs => .get_bind hblind (h hs hs)

theorem ite {c : Prop} [Decidable c] (h : c → Gives source x s Q) (h' : ¬c → Gives source y s Q) :
    Gives source (if c then x else y) s Q := by
  by_cases hc : c
  · rw [if_pos hc]
    exact h hc
  · rw [if_neg hc]
    exact h' hc

theorem map {h : α → β} (hx : Gives source x s Q) (hR : ∀ {a t}, Q a t → R (h a) t) :
    Gives source (h <$> x) s R :=
  fun hs => (hx hs).map hR

theorem advance_bind {f : Unit → Parser β} (hk : s.kind = k) (hbrace : ¬IsBrace k) (hend : k ≠ .eof)
    (h : Reaches source s s.advance → s.advance.rest.length < s.rest.length →
      Gives source (f ()) s.advance R) :
    Gives source (advance >>= f) s R := by
  have hadvance : Gives source advance s fun _ t => t = s.advance ∧
      t.rest.length < s.rest.length := of (.advance hk hbrace hend)
  refine hadvance.bind fun ht ⟨heq, hlt⟩ => ?_
  subst heq
  exact h ht hlt

/-- What follows a choice follows each of its branches. -/
theorem choice_bind {c : Parser Bool}
    (hc : Gives source (c >>= fun b => if b = true then x else y) s Q)
    (hf : ∀ {a t}, Reaches source s t → Q a t → Gives source (f a) t R) :
    Gives source (c >>= fun b => if b = true then x >>= f else y >>= f) s R := by
  intro hs
  refine (hc hs).choice_bind fun hm hQ => ?_
  obtain ⟨read, hread, -⟩ := hm.crosses
  have ht := hs.reaches hread
  exact hf ht hQ ht.placed

theorem unlessMark {m : Mark} {a : α} (h : Gives source x s Q) (ha : Q a s) :
    Gives source (do if ← Parser.atMark m then Pure.pure a else x) s Q :=
  fun hs => (h hs).unlessMark ha

theorem spanFrom_bind {start : Span} {f : Span → Parser β}
    (h : Placed source s → Gives source (f (start.merge s.lastSpan)) s R) :
    Gives source (Parser.spanFrom start >>= f) s R := by
  have hspan : Gives source (Parser.spanFrom start) s
      fun span t => span = start.merge s.lastSpan ∧ t = s := by
    refine get_bind (fun _ => rfl) fun _ => pure ⟨rfl, rfl⟩
  refine hspan.bind fun {span t} ht ⟨hspan, hsame⟩ => ?_
  subst hspan hsame
  exact h ht.placed

/-- What ends with the last token that has been read. -/
theorem spanned {make : Span → α} {start : Span}
    (h : Placed source s → Q (make (start.merge s.lastSpan)) s) :
    Gives source (do return make (← Parser.spanFrom start)) s Q :=
  spanFrom_bind fun hs => pure (h hs)

end Gives

/-! ### Tokens, names and types -/

section

variable {source : List Char} {s t : State} {read : List Token}

/-- A node between two states, and the places of its span. -/
structure NodeIn (source : List Char) (s t : State) (n : Node) (span : Span) : Prop where
  lies : n.Lies source s.span.start t.lastSpan.stop
  places : s.span.start ≤ span.start ∧ span.start ≤ span.stop ∧ span.stop ≤ t.lastSpan.stop

theorem nodeIn_of_lies {n : Node} (h : n.Lies source s.span.start t.lastSpan.stop) :
    NodeIn source s t n n.span :=
  ⟨h, h.start, h.sound.fits.ordered, h.stop⟩

/-- A node lies between any offsets between which its span does. -/
theorem NodeIn.within {n : Node} {span : Span} {lo hi : Nat} (h : NodeIn source s t n span)
    (hspan : n.span = span) (hlo : lo ≤ span.start) (hhi : span.stop ≤ hi) :
    n.Lies source lo hi :=
  ⟨h.lies.sound, hspan ▸ hlo, hspan ▸ hhi⟩

theorem NodeIn.fits {n : Node} {span : Span} (h : NodeIn source s t n span)
    (hspan : n.span = span) : span.Fits source :=
  hspan ▸ h.lies.sound.fits

/-- A node that is a token. -/
theorem Reaches.lies_span {n : Node} (h : Reaches source s t) (hs : Placed source s)
    (hlt : t.rest.length < s.rest.length) (hspan : n.span = s.span) (hparts : n.parts = []) :
    n.Lies source s.span.start t.lastSpan.stop := by
  have hplaces := h.places
  refine Node.lies_of_fits (hspan ▸ hs.fits_span) hparts (hspan ▸ Nat.le.refl) ?_
  rw [hspan]
  omega

theorem Gives.ident : Gives source ident s fun i t =>
    t.rest.length < s.rest.length ∧ NodeIn source s t (.ident i) i.span := by
  unfold Parser.ident
  refine get_bind (fun _ => rfl) fun hs => ?_
  split
  · next name hk =>
      refine advance_bind hk (not_isBrace_ident name) TokenKind.noConfusion fun ht hlt => pure ?_
      exact ⟨hlt, nodeIn_of_lies (ht.lies_span hs hlt rfl rfl)⟩
  · exact of (.fail SyntaxError.noConfusion (shows_span s))

/-- The names of a path are tokens that are read with it. -/
theorem exists_crosses_pathTail {u : Unit}
    (h : Reads (advanceBy (2 * (pathTail s.rest).length)) s u t) :
    ∃ read, Crosses read s t ∧ ∀ i ∈ pathTail s.rest, ∃ token ∈ read, token.span = i.span := by
  generalize hrest : s.rest = rest at h ⊢
  induction rest using pathTail.induct generalizing s with
  | case1 dotSpan name span rest ih =>
      obtain ⟨hdot, hname⟩ := rest_eq_cons hrest
      have hname := hname TokenKind.noConfusion
      obtain ⟨hident, htail⟩ := rest_eq_cons hname
      rw [pathTail, List.length_cons, reads_advanceBy_add_two] at h
      obtain ⟨read, hread, htokens⟩ := ih (htail TokenKind.noConfusion) h
      obtain ⟨dot, -, hfirst⟩ := Crosses.advance hdot TokenKind.noConfusion
      obtain ⟨token, -, hsecond⟩ := Crosses.advance hident TokenKind.noConfusion
      obtain ⟨rfl, -⟩ := List.cons.inj (hname.symm.trans hsecond.rest)
      refine ⟨[dot] ++ ([⟨.ident name, span⟩] ++ read), hfirst.trans (hsecond.trans hread),
        fun i hi => ?_⟩
      rw [pathTail] at hi
      obtain rfl | hi := List.mem_cons.1 hi
      · exact ⟨⟨.ident name, span⟩, by simp, rfl⟩
      · obtain ⟨token, htoken, hspan⟩ := htokens i hi
        exact ⟨token, by simp [htoken], hspan⟩
  | case2 rest hne =>
      have hnil : pathTail rest = [] := by
        unfold pathTail
        split
        · exact absurd rfl (hne _ _ _ _)
        · rfl
      rw [hnil] at h ⊢
      obtain ⟨-, rfl⟩ := reads_pure_iff.1 h
      exact ⟨[], .refl s, fun i hi => absurd hi List.not_mem_nil⟩

theorem Gives.advancePath : Gives source (advanceBy (2 * (pathTail s.rest).length)) s fun _ t =>
    LieIn source s.span.start t.lastSpan.stop ((pathTail s.rest).map .ident) := by
  intro hs
  obtain ⟨t, ht⟩ := exists_reads_advanceBy (2 * (pathTail s.rest).length) s
  obtain ⟨read, hread, htokens⟩ := exists_crosses_pathTail ht
  have hmore : Outcome False False (advanceBy (2 * (pathTail s.rest).length))
      (advanceBy (2 * (pathTail s.rest).length)) s fun _ t' => t' = t :=
    .advanceBy (took_pathTail ht) (length_tailSpelling _) fun _ => not_isBrace_of_mem_tailSpelling
  refine hmore.imp fun hsame => ?_
  subst hsame
  intro n hn
  obtain ⟨i, hi, rfl⟩ := List.mem_map.1 hn
  obtain ⟨token, htoken, hspan⟩ := htokens i hi
  have hmem : token ∈ s.rest := by
    rw [hread.rest]
    exact List.mem_append_left _ htoken
  have hstop := hs.stop_le_of_mem hread htoken
  have hfits := hs.fits_of_mem hmem
  have hstart := (hs.le_of_mem hmem).1
  rw [hspan] at hfits hstart hstop
  exact Node.lies_of_fits hfits rfl hstart hstop

theorem Gives.typeRef : Gives source typeRef s fun type t =>
    t.rest.length < s.rest.length ∧ (Node.type type).Lies source s.span.start t.lastSpan.stop := by
  unfold Parser.typeRef
  refine get_bind (fun _ => rfl) fun hs => ?_
  split
  · next hk =>
      refine advance_bind hk (not_isBrace_keyword _) TokenKind.noConfusion fun ht hlt => pure ?_
      exact ⟨hlt, ht.lies_span hs hlt rfl rfl⟩
  · next name hk =>
      refine advance_bind hk (not_isBrace_ident name) TokenKind.noConfusion fun hu hlt => ?_
      refine get_bind (fun _ => rfl) fun _ => ?_
      refine advancePath.bind fun {_ t} ht htail => spanned fun hplaced => ?_
      have hle := hu.places
      have hle' := ht.places
      have hlast := hplaced.fits_lastSpan
      have hfirst : (Node.ident ⟨name, s.span⟩).Lies source s.span.start t.lastSpan.stop :=
        Node.lies_of_fits hs.fits_span rfl Nat.le.refl (by dsimp only [Node.span]; omega)
      refine ⟨by omega, Node.lies_of_merge hs.fits_span hlast rfl ?_ Nat.le.refl ?_ ?_ Nat.le.refl⟩
      · exact Tree.lieIn_cons.2 ⟨hfirst, htail.mono (by omega) Nat.le.refl⟩
      · omega
      · omega
  · split
    · next b hb =>
        have hk := basicType?_eq_some_iff.1 hb
        refine advance_bind hk (not_isBrace_keyword _) TokenKind.noConfusion fun ht hlt => pure ?_
        exact ⟨hlt, ht.lies_span hs hlt rfl rfl⟩
    · exact of (.fail SyntaxError.noConfusion (shows_span s))

theorem Gives.atom : Gives source atom s fun e t =>
    t.rest.length < s.rest.length ∧ (Node.expr e).Lies source s.span.start t.lastSpan.stop := by
  unfold Parser.atom
  refine get_bind (fun _ => rfl) fun hs => ?_
  split
  · next l hl =>
      have hk := literal?_eq_some_iff.1 hl
      refine advance_bind hk (not_isBrace_literal l) ?_ fun ht hlt => pure ?_
      · rcases l with _ | _ | _ | _ | (_ | _) | _ <;> exact TokenKind.noConfusion
      · exact ⟨hlt, ht.lies_span hs hlt rfl rfl⟩
  · split
    · next name hk =>
        refine advance_bind hk (not_isBrace_ident name) TokenKind.noConfusion fun ht hlt => pure ?_
        exact ⟨hlt, ht.lies_span hs hlt rfl rfl⟩
    · split
      · next b hb hdot =>
          have hk := basicType?_eq_some_iff.1 hb
          refine advance_bind hk (not_isBrace_keyword _) TokenKind.noConfusion fun ht hlt => pure ?_
          exact ⟨hlt, ht.lies_span hs hlt rfl rfl⟩
      · exact of (.fail SyntaxError.noConfusion (shows_span s))

end

/-! ### Lists, braces and what begins with a token -/

section

variable {α : Type} {source : List Char} {x : Parser α} {many : Parser (List α)} {s t : State}
  {n : Node} {skip : State → State} {stops : State → Bool} {parts : α → List Node}

/-- A node from the first token behind a state to the last one read, which holds its parts. -/
structure Covers (source : List Char) (s t : State) (n : Node) : Prop where
  span : n.span = s.span.merge t.lastSpan
  reads : t.rest.length < s.rest.length
  parts : LieIn source s.span.start t.lastSpan.stop n.parts

theorem Covers.lies (h : Covers source s t n) (hs : Placed source s) (ht : Reaches source s t) :
    n.Lies source s.span.start t.lastSpan.stop := by
  have hplaces := ht.places
  have hlt := h.reads
  exact Node.lies_of_merge hs.fits_span ht.placed.fits_lastSpan h.span h.parts Nat.le.refl
    (by omega) (by omega) Nat.le.refl

namespace Gives

/-- What covers all that is read lies where it is. -/
theorem covers (node : α → Node) (h : Gives source x s fun a t => Covers source s t (node a)) :
    Gives source x s fun a t =>
      t.rest.length < s.rest.length ∧ (node a).Lies source s.span.start t.lastSpan.stop := by
  intro hs
  have houtcome := h hs
  refine ⟨houtcome.same, fun hread => ?_, houtcome.fails⟩
  obtain ⟨hm, hcovers⟩ := houtcome.reads hread
  obtain ⟨read, hcrosses, -⟩ := hm.crosses
  exact ⟨hm, hcovers.reads, hcovers.lies hs (hs.reaches hcrosses)⟩

theorem separated
    (hx : Gives source x s fun a t => LieIn source s.span.start t.lastSpan.stop (parts a))
    (hmany : ∀ t, Gives source many t fun as u =>
      ∀ a ∈ as, LieIn source t.span.start u.lastSpan.stop (parts a)) :
    Gives source (separated x many) s fun as t =>
      ∀ a ∈ as, LieIn source s.span.start t.lastSpan.stop (parts a) := by
  refine hx.bind fun {a t} ⟨_, _⟩ ha => ?_
  refine (of (.accept (by decide))).bind fun {b u} ⟨_, _⟩ _ => ?_
  refine ite (fun _ => ?_) fun _ => pure ?_
  · refine (hmany u).bind fun {as v} ⟨_, _⟩ has => pure ?_
    refine List.forall_mem_cons.2 ⟨?_, fun b hb => ?_⟩
    · exact ha.mono Nat.le.refl (by omega)
    · exact (has b hb).mono (by omega) Nat.le.refl
  · exact List.forall_mem_singleton.2 (ha.mono Nat.le.refl (by omega))

/-- What is skipped behind an error makes no nodes. -/
theorem recovering {Q : α → State → Prop} (hx : Gives source x s Q)
    (hskips : Skips False False skip) :
    Gives source (Parser.recovering x skip) s fun a t => ∀ b ∈ a, Q b t := by
  refine fun hs => ((hx hs).recovering hskips).imp fun ht => ?_
  obtain ⟨b, rfl, hb⟩ | ⟨rfl, -⟩ := ht
  · rintro b' ⟨⟩
    exact hb
  · rintro b' ⟨⟩

theorem sequence
    (hx : stops s = false →
      Gives source x s fun a t => LieIn source s.span.start t.lastSpan.stop (parts a))
    (hskips : Skips False False skip)
    (hmany : ∀ t, Gives source many t fun as u =>
      ∀ a ∈ as, LieIn source t.span.start u.lastSpan.stop (parts a))
    (hblind : ∀ front, stops (s.behind front) = stops s) :
    Gives source (sequence stops x skip many) s fun as t =>
      ∀ a ∈ as, LieIn source s.span.start t.lastSpan.stop (parts a) := by
  refine get_bind (fun front => by rw [hblind]) fun _ => ite (fun _ => pure ?_) fun hgoes => ?_
  · exact fun _ h => absurd h List.not_mem_nil
  refine ((hx (Bool.eq_false_iff.2 hgoes)).recovering hskips).bind fun {first t} ⟨_, _⟩ hfirst => ?_
  refine (hmany t).bind fun {as u} ⟨_, _⟩ has => pure fun a ha => ?_
  obtain ha | ha := List.mem_append.1 ha
  · exact (hfirst a (Option.mem_toList.1 ha)).mono Nat.le.refl (by omega)
  · exact (has a ha).mono (by omega) Nat.le.refl

theorem enclosed
    (hmany : ∀ t, Gives source many t fun as u =>
      ∀ a ∈ as, LieIn source t.span.start u.lastSpan.stop (parts a)) :
    Gives source (enclosed many) s fun as t => t.rest.length < s.rest.length ∧
      ∀ a ∈ as, LieIn source s.span.start t.lastSpan.stop (parts a) := by
  refine (of .expect_free).bind fun {_ t} ⟨_, _⟩ ht => ?_
  refine (hmany t).bind fun {as u} ⟨_, _⟩ has => ?_
  have hclose : Gives source (Parser.recovering (Parser.expect .rightBrace) id) u fun _ _ => True :=
    ((of .expect_free).recovering ⟨Moves.refl, fun _ _ => rfl⟩).imp fun _ => trivial
  refine hclose.bind fun {_ v} ⟨_, _⟩ _ => pure ⟨by omega, fun a ha => ?_⟩
  exact (has a ha).mono (by omega) (by omega)

end Gives

end

end Scriptlet.Parser
