import Scriptlet.Proofs.Parser.Lists
import Scriptlet.Proofs.Parser.Words

namespace Scriptlet.Parser

/-!
# What the expression parser has read

Whenever the parser makes an expression, the tokens that it has read spell it. A loop over the
operators behind an operand holds an operand that is already spelled, in a position that the next
operator can use.
-/

open Grammar (Phrase Spells)
open Scriptlet.Tree (Expr)

/-- The tokens that have been read spell the phrase. -/
def Spelled (ph : Phrase) (s s' : State) : Prop :=
  ∃ ts, Took ts s s' ∧ Spells ph ts

/-- No operator of the level or a tighter one comes next. -/
def StopsAt (level : Nat) (s : State) : Prop :=
  ∀ op, operator? s.kind = some op → op.level < level

/-- What postfix operators can follow: an operand, or a type in front of a point. -/
def Receiver (e : Expr) (ts : List TokenKind) (s : State) : Prop :=
  Spells (.expr 13 e) ts ∨
    ∃ t span, e = .type t span ∧ ts = [.keyword t.word] ∧ s.kind = .mark .dot

section

variable {s s' t : State} {e : Expr} {ts : List TokenKind}

theorem stopsAt_ten (s : State) : StopsAt 10 s :=
  fun op _ => Nat.lt_succ_of_le op.level_le

theorem Receiver.spells (h : Receiver e ts s) (hk : s.kind ≠ .mark .dot) :
    Spells (.expr 13 e) ts := by
  obtain h | ⟨_, _, -, -, hdot⟩ := h
  · exact h
  · exact absurd hdot hk

/-- A member of a receiver. -/
theorem Receiver.member (h : Receiver e ts s) (name : Tree.Ident) (span : Text.Span) :
    Spells (.expr 13 (.member e name span)) (ts ++ [.mark .dot, .ident name.name]) := by
  obtain h | ⟨b, bspan, rfl, rfl, -⟩ := h
  · exact .member name span (Nat.le_refl 13) h
  · exact .memberOfType b bspan name span (Nat.le_refl 13)

theorem took_of_reads_atom (h : Reads atom s e s') :
    ∃ ts, Took ts s s' ∧ Receiver e ts s' := by
  unfold atom at h
  rw [reads_get_bind_iff] at h
  split at h
  · next l hl =>
      rw [reads_advance_bind_iff, reads_pure_iff] at h
      obtain ⟨rfl, rfl⟩ := h
      have hk := literal?_eq_some_iff.1 hl
      refine ⟨[l.token], .one hk ?_, .inl (.literal l s.span (Nat.le_refl 13))⟩
      rcases l with _ | _ | _ | _ | (_ | _) | _ <;> exact TokenKind.noConfusion
  · split at h
    · next name hk =>
        rw [reads_advance_bind_iff, reads_pure_iff] at h
        obtain ⟨rfl, rfl⟩ := h
        exact ⟨[.ident name], .one hk TokenKind.noConfusion,
          .inl (.name name s.span (Nat.le_refl 13))⟩
    · split at h
      · next b hb hdot =>
          rw [reads_advance_bind_iff, reads_pure_iff] at h
          obtain ⟨rfl, rfl⟩ := h
          have hk := basicType?_eq_some_iff.1 hb
          have hend : s.kind ≠ .eof := hk ▸ TokenKind.noConfusion
          rw [ahead_succ hend] at hdot
          exact ⟨[.keyword b.word], .one hk TokenKind.noConfusion, .inr ⟨b, s.span, rfl, rfl, hdot⟩⟩
      · exact absurd h not_reads_fail

end

/-- Everything that is read within a depth of recursion is spelled. -/
structure SoundExprs (n : Nat) : Prop where
  expr : ∀ {s s' e}, Reads (expr n) s e s' → Spelled (.expr 0 e) s s'
  conditional : ∀ {s s' e}, Reads (conditional n) s e s' → Spelled (.expr 1 e) s s'
  binary : ∀ {s s' e level}, level ≤ 10 → Reads (binary n level) s e s' →
    Spelled (.expr (level + 2) e) s s' ∧ StopsAt level s'
  binaryTail : ∀ {s s' e left ts level} (j : Nat), level ≤ j → StopsAt (j + 1) s →
    Spells (.expr (j + 2) left) ts → Reads (binaryTail n level left) s e s' →
      (∃ us, Took us s s' ∧ Spells (.expr (level + 2) e) (ts ++ us)) ∧ StopsAt level s'
  unary : ∀ {s s' e}, Reads (unary n) s e s' → Spelled (.expr 12 e) s s'
  postfixTail : ∀ {s s' e left ts}, Receiver left ts s → Reads (postfixTail n left) s e s' →
    ∃ us, Took us s s' ∧ Spells (.expr 13 e) (ts ++ us)
  primary : ∀ {s s' e}, Reads (primary n) s e s' → ∃ ts, Took ts s s' ∧ Receiver e ts s'
  arguments : ∀ {s s' es}, Reads (arguments n) s es s' → Spelled (.args es) s s'
  exprs : ∀ {s s' es}, Reads (exprs n) s es s' → Spelled (.list es) s s'

namespace SoundExprs

variable {n : Nat} {s s' : State} {e : Expr}

theorem zero : SoundExprs 0 where
  expr h := absurd h not_reads_failHere
  conditional h := absurd h not_reads_failHere
  binary _ h := absurd h not_reads_failHere
  binaryTail _ _ _ _ h := absurd h not_reads_failHere
  unary h := absurd h not_reads_failHere
  postfixTail _ h := absurd h not_reads_failHere
  primary h := absurd h not_reads_failHere
  arguments h := absurd h not_reads_failHere
  exprs h := absurd h not_reads_failHere

theorem expr_succ (ih : SoundExprs n) (h : Reads (Parser.expr (n + 1)) s e s') :
    Spelled (.expr 0 e) s s' := by
  rw [Parser.expr] at h
  obtain ⟨target, t, htarget, h⟩ := reads_bind_iff.1 h
  obtain ⟨ts, hts, htarget⟩ := ih.conditional htarget
  rw [reads_get_bind_iff] at h
  split at h
  · obtain ⟨rfl, rfl⟩ := reads_pure_iff.1 h
    exact ⟨ts, hts, htarget.mono (Nat.zero_le 1)⟩
  · next op hop =>
      obtain ⟨m, hm, hk⟩ := assignment?_eq_some_iff.1 hop
      rw [reads_advance_bind_iff] at h
      obtain ⟨value, t', hvalue, h⟩ := reads_bind_iff.1 h
      obtain ⟨rfl, rfl⟩ := reads_pure_iff.1 h
      obtain ⟨us, hus, hvalue⟩ := ih.expr hvalue
      exact ⟨_, hts.append (.cons hk TokenKind.noConfusion hus), .assign op _ hm htarget hvalue⟩

theorem conditional_succ (ih : SoundExprs n) (h : Reads (Parser.conditional (n + 1)) s e s') :
    Spelled (.expr 1 e) s s' := by
  rw [Parser.conditional] at h
  obtain ⟨c, t, hc, h⟩ := reads_bind_iff.1 h
  obtain ⟨⟨ts, hts, hc⟩, -⟩ := ih.binary (Nat.zero_le 10) hc
  obtain ⟨b, t₁, haccept, h⟩ := reads_bind_iff.1 h
  obtain ⟨rfl, hquestion⟩ | ⟨rfl, -, rfl⟩ := reads_accept_iff.1 haccept
  · rw [if_pos rfl] at h
    obtain ⟨y, t₂, hy, h⟩ := reads_bind_iff.1 h
    obtain ⟨_, t₃, hcolon, h⟩ := reads_bind_iff.1 h
    obtain ⟨no, t₄, hno, h⟩ := reads_bind_iff.1 h
    obtain ⟨rfl, rfl⟩ := reads_pure_iff.1 h
    obtain ⟨us, hus, hy⟩ := ih.expr hy
    obtain ⟨vs, hvs, hno⟩ := ih.conditional hno
    have hyes := hts.append (hquestion.append hus)
    have hall := hyes.append ((reads_expect_iff.1 hcolon).append hvs)
    exact ⟨_, hall, .conditional _ (Nat.le_refl 1) hc hy hno⟩
  · rw [if_neg Bool.false_ne_true] at h
    obtain ⟨rfl, rfl⟩ := reads_pure_iff.1 h
    exact ⟨ts, hts, hc.mono (Nat.le_succ 1)⟩

theorem binary_succ (ih : SoundExprs n) {level : Nat} (hlevel : level ≤ 10)
    (h : Reads (Parser.binary (n + 1) level) s e s') :
    Spelled (.expr (level + 2) e) s s' ∧ StopsAt level s' := by
  rw [Parser.binary] at h
  obtain ⟨left, t, hleft, h⟩ := reads_bind_iff.1 h
  obtain ⟨ts, hts, hleft⟩ := ih.unary hleft
  have hstops : StopsAt (10 + 1) t := fun op hop => Nat.lt_succ_of_lt (stopsAt_ten t op hop)
  obtain ⟨⟨us, hus, he⟩, hend⟩ := ih.binaryTail 10 hlevel hstops hleft h
  exact ⟨⟨ts ++ us, hts.append hus, he⟩, hend⟩

theorem binaryTail_succ (ih : SoundExprs n) {left : Expr} {ts : List TokenKind} {level : Nat}
    (j : Nat) (hlevel : level ≤ j) (hnext : StopsAt (j + 1) s)
    (hleft : Spells (.expr (j + 2) left) ts)
    (h : Reads (Parser.binaryTail (n + 1) level left) s e s') :
    (∃ us, Took us s s' ∧ Spells (.expr (level + 2) e) (ts ++ us)) ∧ StopsAt level s' := by
  rw [Parser.binaryTail, reads_get_bind_iff] at h
  have hdone : Spells (.expr (level + 2) left) (ts ++ []) := by
    rw [List.append_nil]
    exact hleft.mono (Nat.add_le_add_right hlevel 2)
  split at h
  · next hop =>
      obtain ⟨rfl, rfl⟩ := reads_pure_iff.1 h
      refine ⟨⟨[], .nil s, hdone⟩, fun op hsome => ?_⟩
      rw [hop] at hsome
      cases hsome
  · next op hop =>
      have hj : op.level ≤ j := Nat.le_of_lt_succ (hnext op hop)
      split at h
      · next hle =>
          -- The operator binds what has been read so far, and its right operand ends before an
          -- operator that binds as tightly.
          rw [reads_advance_bind_iff] at h
          obtain ⟨right, t, hright, h⟩ := reads_bind_iff.1 h
          have hten : op.level + 1 ≤ 10 := Nat.succ_le_succ op.level_le
          obtain ⟨⟨us, hus, hright⟩, hend⟩ := ih.binary hten hright
          have hleft' := hleft.mono (Nat.add_le_add_right hj 2)
          have hwhole := Spells.binary op (left.span.merge right.span) (Nat.le_refl _) hleft' hright
          obtain ⟨⟨vs, hvs, he⟩, hstop⟩ := ih.binaryTail op.level hle hend hwhole h
          have hk := operator?_eq_some_iff.1 hop
          refine ⟨⟨_, Took.cons hk TokenKind.noConfusion (hus.append hvs), ?_⟩, hstop⟩
          rw [List.append_assoc] at he
          exact he
      · next hlt =>
          obtain ⟨rfl, rfl⟩ := reads_pure_iff.1 h
          refine ⟨⟨[], .nil s, hdone⟩, fun op' hop' => ?_⟩
          rw [hop] at hop'
          cases hop'
          exact Nat.lt_of_not_le hlt

theorem unary_succ (ih : SoundExprs n) (h : Reads (Parser.unary (n + 1)) s e s') :
    Spelled (.expr 12 e) s s' := by
  rw [Parser.unary, reads_get_bind_iff] at h
  split at h
  · next sign hsign =>
      rw [reads_advance_bind_iff] at h
      obtain ⟨operand, t, hoperand, h⟩ := reads_bind_iff.1 h
      obtain ⟨rfl, rfl⟩ := reads_pure_iff.1 h
      obtain ⟨ts, hts, hoperand⟩ := ih.unary hoperand
      have hk := sign?_eq_some_iff.1 hsign
      exact ⟨_, .cons hk TokenKind.noConfusion hts, .unary sign _ (Nat.le_refl 12) hoperand⟩
  · next increment _ hstep =>
      rw [reads_advance_bind_iff] at h
      obtain ⟨operand, t, hoperand, h⟩ := reads_bind_iff.1 h
      obtain ⟨rfl, rfl⟩ := reads_pure_iff.1 h
      obtain ⟨ts, hts, hoperand⟩ := ih.unary hoperand
      have hk := step?_eq_some_iff.1 hstep
      exact ⟨_, .cons hk TokenKind.noConfusion hts,
        .prefixStep increment _ (Nat.le_refl 12) hoperand⟩
  · split at h
    · next hcast =>
        obtain ⟨b, hleft, hword, -⟩ := atCast_iff.1 hcast
        rw [reads_advance_bind_iff] at h
        obtain ⟨type, t₁, htype, h⟩ := reads_bind_iff.1 h
        obtain ⟨_, t₂, hright, h⟩ := reads_bind_iff.1 h
        obtain ⟨operand, t₃, hoperand, h⟩ := reads_bind_iff.1 h
        obtain ⟨rfl, rfl⟩ := reads_pure_iff.1 h
        obtain ⟨hproper, htype⟩ := took_of_reads_typeRef htype
        obtain ⟨ts, hts, hoperand⟩ := ih.unary hoperand
        have hshape := shape_eq_basic hproper htype hword
        obtain ⟨shape, tspan⟩ := type
        obtain rfl : shape = .basic b := hshape
        have hafter := htype.append ((reads_expect_iff.1 hright).append hts)
        exact ⟨_, .cons hleft TokenKind.noConfusion hafter,
          .cast b tspan _ (Nat.le_refl 12) hoperand⟩
    · obtain ⟨first, t, hfirst, h⟩ := reads_bind_iff.1 h
      obtain ⟨ts, hts, hfirst⟩ := ih.primary hfirst
      obtain ⟨us, hus, he⟩ := ih.postfixTail hfirst h
      exact ⟨_, hts.append hus, he.mono (Nat.le_succ 12)⟩

theorem postfixTail_succ (ih : SoundExprs n) {left : Expr} {ts : List TokenKind}
    (hleft : Receiver left ts s) (h : Reads (Parser.postfixTail (n + 1) left) s e s') :
    ∃ us, Took us s s' ∧ Spells (.expr 13 e) (ts ++ us) := by
  rw [Parser.postfixTail, reads_get_bind_iff] at h
  split at h
  · next hk =>
      rw [reads_advance_bind_iff] at h
      obtain ⟨name, t, hname, h⟩ := reads_bind_iff.1 h
      obtain ⟨hname, -⟩ := reads_ident_iff.1 hname
      obtain ⟨us, hus, he⟩ := ih.postfixTail (.inl (hleft.member name _)) h
      refine ⟨_, .cons hk TokenKind.noConfusion (hname.append hus), ?_⟩
      rw [List.append_assoc] at he
      exact he
  · next hk =>
      have hleft := hleft.spells (hk ▸ by decide)
      obtain ⟨args, t, hargs, h⟩ := reads_bind_iff.1 h
      obtain ⟨span, t', hspan, h⟩ := reads_bind_iff.1 h
      obtain ⟨-, rfl⟩ := reads_spanFrom_iff.1 hspan
      obtain ⟨us, hus, hargs⟩ := ih.arguments hargs
      obtain ⟨vs, hvs, he⟩ := ih.postfixTail (.inl (.call span (Nat.le_refl 13) hleft hargs)) h
      refine ⟨_, hus.append hvs, ?_⟩
      rw [List.append_assoc] at he
      exact he
  · next hk =>
      have hleft := hleft.spells (hk ▸ by decide)
      rw [reads_advance_bind_iff] at h
      obtain ⟨index, t, hindex, h⟩ := reads_bind_iff.1 h
      obtain ⟨_, t', hright, h⟩ := reads_bind_iff.1 h
      obtain ⟨span, t'', hspan, h⟩ := reads_bind_iff.1 h
      obtain ⟨-, rfl⟩ := reads_spanFrom_iff.1 hspan
      obtain ⟨us, hus, hindex⟩ := ih.expr hindex
      have hwhole := Spells.index span (Nat.le_refl 13) hleft hindex
      obtain ⟨vs, hvs, he⟩ := ih.postfixTail (.inl hwhole) h
      have hbrackets := hus.append ((reads_expect_iff.1 hright).append hvs)
      refine ⟨_, .cons hk TokenKind.noConfusion hbrackets, ?_⟩
      simp only [List.append_assoc, List.cons_append] at he
      exact he
  · next hk =>
      have hleft := hleft.spells (hk ▸ by decide)
      rw [reads_advance_bind_iff] at h
      obtain ⟨span, t, hspan, h⟩ := reads_bind_iff.1 h
      obtain ⟨-, rfl⟩ := reads_spanFrom_iff.1 hspan
      have hwhole := Spells.postfixStep true span (Nat.le_refl 13) hleft
      obtain ⟨us, hus, he⟩ := ih.postfixTail (.inl hwhole) h
      refine ⟨_, .cons hk TokenKind.noConfusion hus, ?_⟩
      rw [List.append_assoc] at he
      exact he
  · next hk =>
      have hleft := hleft.spells (hk ▸ by decide)
      rw [reads_advance_bind_iff] at h
      obtain ⟨span, t, hspan, h⟩ := reads_bind_iff.1 h
      obtain ⟨-, rfl⟩ := reads_spanFrom_iff.1 hspan
      have hwhole := Spells.postfixStep false span (Nat.le_refl 13) hleft
      obtain ⟨us, hus, he⟩ := ih.postfixTail (.inl hwhole) h
      refine ⟨_, .cons hk TokenKind.noConfusion hus, ?_⟩
      rw [List.append_assoc] at he
      exact he
  · next hdot _ _ _ _ =>
      obtain ⟨rfl, rfl⟩ := reads_pure_iff.1 h
      refine ⟨[], .nil s, ?_⟩
      rw [List.append_nil]
      exact hleft.spells hdot

theorem primary_succ (ih : SoundExprs n) (h : Reads (Parser.primary (n + 1)) s e s') :
    ∃ ts, Took ts s s' ∧ Receiver e ts s' := by
  rw [Parser.primary, reads_get_bind_iff] at h
  split at h
  · next hk =>
      rw [reads_advance_bind_iff] at h
      obtain ⟨inner, t, hinner, h⟩ := reads_bind_iff.1 h
      obtain ⟨_, t', hright, h⟩ := reads_bind_iff.1 h
      obtain ⟨rfl, rfl⟩ := reads_pure_iff.1 h
      obtain ⟨ts, hts, hinner⟩ := ih.expr hinner
      have hafter := hts.append (reads_expect_iff.1 hright)
      exact ⟨_, .cons hk TokenKind.noConfusion hafter, .inl (.parens 13 hinner)⟩
  · next hk =>
      rw [reads_advance_bind_iff] at h
      obtain ⟨type, t, htype, h⟩ := reads_bind_iff.1 h
      obtain ⟨args, t', hargs, h⟩ := reads_bind_iff.1 h
      obtain ⟨span, t'', hspan, h⟩ := reads_bind_iff.1 h
      obtain ⟨-, rfl⟩ := reads_spanFrom_iff.1 hspan
      obtain ⟨rfl, rfl⟩ := reads_pure_iff.1 h
      obtain ⟨hproper, htype⟩ := took_of_reads_typeRef htype
      obtain ⟨us, hus, hargs⟩ := ih.arguments hargs
      exact ⟨_, .cons hk TokenKind.noConfusion (htype.append hus),
        .inl (.new type span (Nat.le_refl 13) hproper hargs)⟩
  · exact took_of_reads_atom h

theorem arguments_succ (ih : SoundExprs n) {es : List Expr}
    (h : Reads (Parser.arguments (n + 1)) s es s') : Spelled (.args es) s s' := by
  rw [Parser.arguments] at h
  obtain ⟨_, t, hleft, h⟩ := reads_bind_iff.1 h
  obtain ⟨empty, t₁, hempty, h⟩ := reads_bind_iff.1 h
  obtain ⟨-, rfl⟩ := reads_atMark_iff.1 hempty
  have hleft := reads_expect_iff.1 hleft
  split at h
  · rw [pure_bind] at h
    obtain ⟨_, t₂, hright, h⟩ := reads_bind_iff.1 h
    obtain ⟨rfl, rfl⟩ := reads_pure_iff.1 h
    exact ⟨_, hleft.append (reads_expect_iff.1 hright), .noArgs⟩
  · obtain ⟨args, t₂, hargs, h⟩ := reads_bind_iff.1 h
    obtain ⟨_, t₃, hright, h⟩ := reads_bind_iff.1 h
    obtain ⟨rfl, rfl⟩ := reads_pure_iff.1 h
    obtain ⟨ts, hts, hargs⟩ := ih.exprs hargs
    exact ⟨_, hleft.append (hts.append (reads_expect_iff.1 hright)), .someArgs hargs⟩

theorem exprs_succ (ih : SoundExprs n) {es : List Expr}
    (h : Reads (Parser.exprs (n + 1)) s es s') : Spelled (.list es) s s' := by
  rw [Parser.exprs] at h
  obtain ⟨first, others, t, t₁, rfl, hfirst, hcomma, hothers⟩ | ⟨first, rfl, hfirst, -⟩ :=
    reads_commas_iff.1 h
  · obtain ⟨ts, hts, hfirst⟩ := ih.expr hfirst
    obtain ⟨us, hus, hothers⟩ := ih.exprs hothers
    exact ⟨_, hts.append (hcomma.append hus), .more hfirst hothers⟩
  · obtain ⟨ts, hts, hfirst⟩ := ih.expr hfirst
    exact ⟨ts, hts, .one hfirst⟩

end SoundExprs

theorem soundExprs (n : Nat) : SoundExprs n := by
  induction n with
  | zero => exact .zero
  | succ n ih =>
      exact ⟨ih.expr_succ, ih.conditional_succ, ih.binary_succ, ih.binaryTail_succ, ih.unary_succ,
        ih.postfixTail_succ, ih.primary_succ, ih.arguments_succ, ih.exprs_succ⟩

end Scriptlet.Parser
