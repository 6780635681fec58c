import Scriptlet.Proofs.Typing.Elaboration
import Scriptlet.Proofs.Typing.Yields

namespace Scriptlet.Typing

/-!
# Accepted literals and operators

If checking an expression reports nothing, then it has elaborated the expression and has left the
variables as they were. There is one lemma for each rule of checking.
-/

/-- A check that elaborates an expression if it reports nothing. -/
def Elaborating (ctx : Context) (c : Check Typed) (e : Tree.Expr) : Prop :=
  ∀ v t u, Yields c ctx v t u → u = v ∧ Elaborates ctx v.look e t

/-- Parts that elaborate the expressions of a list. -/
abbrev PartsElaborating (ctx : Context) : List Part → List Tree.Expr → Prop :=
  List.Forall₂ fun p e => Elaborating ctx p.check e

section

variable {ctx : Context} {v u : Variables}

theorem yields_converted {t : Typed} {target : DataType} {span : Text.Span} {e : Core.Expr}
    (h : Yields (t.converted target span) ctx v e u) :
    u = v ∧ ∃ c, Conversion.implicit? t.operand target = some c ∧ e = .convert c target t.expr := by
  unfold Typed.converted at h
  split at h
  · next c hc =>
      obtain ⟨rfl, rfl⟩ := (yields_pure _ _).1 h
      exact ⟨rfl, c, hc, rfl⟩
  · simp at h

theorem yields_as {p : Part} {e : Tree.Expr} (hp : Elaborating ctx p.check e) {target : DataType}
    {x : Core.Expr} (h : Yields (p.as target) ctx v x u) :
    u = v ∧ ∃ t c, Elaborates ctx v.look e t ∧ Conversion.implicit? t.operand target = some c ∧
      x = .convert c target t.expr := by
  rw [Part.as, yields_bind] at h
  obtain ⟨t, w, ht, h⟩ := h
  obtain ⟨rfl, ht⟩ := hp _ _ _ ht
  obtain ⟨rfl, c, hc, rfl⟩ := yields_converted h
  exact ⟨rfl, t, c, ht, hc, rfl⟩

theorem yields_resolve? {t : Tree.TypeRef} {a : Option DataType}
    (h : Yields (resolve? t) ctx v a u) :
    u = v ∧ ∃ d, ctx.signatures.names.resolve t = .ok d ∧ a = some d := by
  unfold resolve? TypeNames.resolved? at h
  rw [yields_bind] at h
  obtain ⟨_, _, hread, h⟩ := h
  obtain ⟨rfl, rfl⟩ := (yields_read _).1 hread
  obtain ⟨h, rfl⟩ := (yields_lift _ _).1 h
  split at h
  · next d hd =>
      cases h
      exact ⟨rfl, d, hd, rfl⟩
  · cases h

theorem yields_owner? {e : Tree.Expr} {a : Option Owner} (h : Yields (owner? e) ctx v a u) :
    u = v ∧ a = ownerOf? ctx.signatures.names (v.look · |>.isSome) e := by
  unfold owner? at h
  simp only [yields_bind, yields_read] at h
  obtain ⟨_, _, ⟨rfl, rfl⟩, h⟩ := h
  split at h
  · obtain ⟨rfl, rfl⟩ := (yields_pure _ _).1 h
    exact ⟨rfl, rfl⟩
  · simp only [yields_bind, yields_lookup?] at h
    obtain ⟨_, _, ⟨rfl, rfl⟩, h⟩ := h
    obtain ⟨rfl, rfl⟩ := (yields_pure _ _).1 h
    exact ⟨rfl, rfl⟩
  · simp only [yields_bind, yields_lookup?] at h
    obtain ⟨_, _, ⟨rfl, rfl⟩, h⟩ := h
    rw [ownerOf?]
    split at h
    · next hif =>
        obtain ⟨rfl, rfl⟩ := (yields_pure _ _).1 h
        rw [if_pos (by simpa [Variables.look] using hif)]
        exact ⟨rfl, rfl⟩
    · next hif =>
        obtain ⟨rfl, rfl⟩ := (yields_pure _ _).1 h
        rw [if_neg (by simpa [Variables.look] using hif)]
        exact ⟨rfl, rfl⟩
  · obtain ⟨rfl, rfl⟩ := (yields_pure _ _).1 h
    refine ⟨rfl, ?_⟩
    rw [ownerOf?] <;> assumption

theorem yields_target? {target : Tree.Expr} {e : SemanticError} {a : Option Local}
    (h : Yields (target? target e) ctx v a u) :
    u = v ∧ ∃ name span l, target = .name name span ∧ v.look name = some l ∧ a = some l := by
  unfold target? at h
  split at h
  · next name span =>
      simp only [yields_bind, yields_read, yields_lookup?] at h
      obtain ⟨_, _, ⟨rfl, rfl⟩, _, _, ⟨rfl, rfl⟩, h⟩ := h
      split at h
      · next l hl =>
          obtain ⟨rfl, rfl⟩ := (yields_pure _ _).1 h
          exact ⟨rfl, name, span, l, rfl, hl, rfl⟩
      · simp at h
  · simp at h

end

section

variable {ctx : Context} {e left right : Tree.Expr} {c : Check Typed}

theorem elaborates_of_checkInteger {n : Int} {long : Bool} {span : Text.Span} {v u : Variables}
    {t : Typed} (h : Yields (checkInteger n long span) ctx v t u) :
    u = v ∧ ∃ k o, integer? n long = some (k, o) ∧ t = ⟨.literal k, o⟩ := by
  unfold checkInteger at h
  unfold integer?
  split at h
  · next hint =>
      obtain ⟨rfl, rfl⟩ := (yields_pure _ _).1 h
      rw [if_pos hint]
      exact ⟨rfl, _, _, rfl, rfl⟩
  · next hint =>
      rw [if_neg hint]
      split at h
      · next hlong =>
          obtain ⟨rfl, rfl⟩ := (yields_pure _ _).1 h
          rw [if_pos hlong]
          exact ⟨rfl, _, _, rfl, rfl⟩
      · simp at h

theorem elaborating_checkLiteral (l : Tree.Literal) (span span' : Text.Span) :
    Elaborating ctx (checkLiteral l span) (.literal l span') := by
  intro v t u h
  unfold checkLiteral at h
  split at h
  · obtain ⟨rfl, k, o, hl, rfl⟩ := elaborates_of_checkInteger h
    exact ⟨rfl, .literal hl⟩
  all_goals
    obtain ⟨rfl, rfl⟩ := (yields_pure _ _).1 h
    exact ⟨rfl, .literal rfl⟩

theorem elaborating_checkPlus (hc : Elaborating ctx c e) (span span' : Text.Span) :
    Elaborating ctx (checkPlus c span) (.unary .plus e span') := by
  intro v t u h
  rw [checkPlus, yields_bind] at h
  obtain ⟨a, w, ha, h⟩ := h
  obtain ⟨rfl, ha⟩ := hc _ _ _ ha
  split at h
  · next hunknown => exact absurd hunknown ha.known
  · exact absurd h (yields_wrong _ _ _)
  · next s hs =>
      split at h
      · next p hp =>
          obtain ⟨rfl, rfl⟩ := (yields_pure _ _).1 h
          exact ⟨rfl, .plus ha hs hp⟩
      · exact absurd h (yields_wrong _ _ _)

theorem elaborating_checkUnary {op : UnaryOp}
    (hop : ∀ value long s, op = .neg → e = .literal (.int value long) s → False)
    (hc : Elaborating ctx c e) (span span' : Text.Span) :
    Elaborating ctx (checkUnary op c span) (.unary (.strict op) e span') := by
  intro v t u h
  rw [checkUnary, yields_bind] at h
  obtain ⟨a, w, ha, h⟩ := h
  obtain ⟨rfl, ha⟩ := hc _ _ _ ha
  dsimp only at h
  split at h
  · next hunknown => exact absurd hunknown ha.known
  · exact absurd h (yields_wrong _ _ _)
  · next s hs =>
      split at h
      · next r hr =>
          obtain ⟨rfl, rfl⟩ := (yields_pure _ _).1 h
          exact ⟨rfl, .unary hop ha hs hr⟩
      · exact absurd h (yields_wrong _ _ _)

theorem elaborating_checkBinary {l r : Check Typed} (hl : Elaborating ctx l left)
    (hr : Elaborating ctx r right) (op : BinaryOp) (span span' : Text.Span) :
    Elaborating ctx (checkBinary op l r span) (.binary (.strict op) left right span') := by
  intro v t u h
  simp only [checkBinary, yields_bind] at h
  obtain ⟨a, w, ha, b, x, hb, h⟩ := h
  obtain ⟨rfl, ha⟩ := hl _ _ _ ha
  obtain ⟨rfl, hb⟩ := hr _ _ _ hb
  rw [if_neg (not_or.2 ⟨ha.known, hb.known⟩)] at h
  split at h
  · next k s hk =>
      obtain ⟨rfl, rfl⟩ := (yields_pure _ _).1 h
      exact ⟨rfl, .binary ha hb hk⟩
  · exact absurd h (yields_wrong _ _ _)

/-- What comes out of checking an operator that may not evaluate its right operand. -/
theorem yields_checkLogical {l r : Check Typed} (hl : Elaborating ctx l left)
    (hr : Elaborating ctx r right) {op : Tree.Operator}
    {make : Core.Expr → Core.Expr → Core.Expr} {span : Text.Span} {v u : Variables} {t : Typed}
    (h : Yields (checkLogical op make l r span) ctx v t u) :
    u = v ∧ ∃ a b, Elaborates ctx v.look left a ∧ Elaborates ctx v.look right b ∧
      a.type = .of .bool ∧ b.type = .of .bool ∧ t = .of (make a.expr b.expr) .bool := by
  simp only [checkLogical, yields_bind] at h
  obtain ⟨a, w, ha, b, x, hb, h⟩ := h
  obtain ⟨rfl, ha⟩ := hl _ _ _ ha
  obtain ⟨rfl, hb⟩ := hr _ _ _ hb
  rw [if_neg (not_or.2 ⟨ha.known, hb.known⟩)] at h
  split at h
  · next hbool =>
      obtain ⟨rfl, rfl⟩ := (yields_pure _ _).1 h
      exact ⟨rfl, a, b, ha, hb, hbool.1, hbool.2, rfl⟩
  · exact absurd h (yields_wrong _ _ _)

theorem elaborating_checkIndex {receiver index : Part}
    (hr : Elaborating ctx receiver.check left) (hi : Elaborating ctx index.check right)
    (span : Text.Span) : Elaborating ctx (checkIndex receiver index) (.index left right span) := by
  intro v t u h
  rw [checkIndex, yields_bind] at h
  obtain ⟨a, w, ha, h⟩ := h
  obtain ⟨rfl, ha⟩ := hr _ _ _ ha
  split at h
  · next hunknown => exact absurd hunknown ha.known
  · next hs =>
      rw [yields_bind] at h
      obtain ⟨x, w, hx, h⟩ := h
      obtain ⟨rfl, i, k, hi, hk, rfl⟩ := yields_as hi hx
      obtain ⟨rfl, rfl⟩ := (yields_pure _ _).1 h
      exact ⟨rfl, .index ha hs hi hk⟩
  · exact absurd h (yields_wrong _ _ _)

theorem yields_checkCompound {op : BinaryOp} {l : Local} {operand : Typed} {span : Text.Span}
    {v u : Variables} {a : Option Core.Expr}
    (h : Yields (checkCompound op l operand span) ctx v a u) :
    u = v ∧ ∃ k r k', Combiner.of? op (.of l.type) operand.type = some (k, r) ∧
      compoundConversion? op r operand.operand l.type = some k' ∧
      a = some (.convert k' l.type (.combine k (.load l.slot) operand.expr)) := by
  unfold checkCompound at h
  split at h
  · simp at h
  · next k r hk =>
      dsimp only at h
      unfold compoundConversion?
      split at h
      · next k' hk' =>
          obtain ⟨rfl, rfl⟩ := (yields_pure _ _).1 h
          refine ⟨rfl, k, r, k', hk, ?_, rfl⟩
          rw [hk']
      · next hk' =>
          split at h
          · next hnarrow =>
              obtain ⟨rfl, rfl⟩ := (yields_pure _ _).1 h
              refine ⟨rfl, k, r, .numeric, hk, ?_, rfl⟩
              rw [hk']
              exact if_pos hnarrow
          · simp at h

theorem elaborating_checkAssign {value : Part} (hvalue : Elaborating ctx value.check right)
    (op : Option BinaryOp) (target : Tree.Expr) (span span' : Text.Span) :
    Elaborating ctx (checkAssign op target value span) (.assign op target right span') := by
  intro v t u h
  rw [checkAssign, yields_bind] at h
  obtain ⟨a, w, ha, h⟩ := h
  obtain ⟨rfl, name, s, l, rfl, hl, rfl⟩ := yields_target? ha
  cases op with
  | none =>
      simp only [yields_bind] at h
      obtain ⟨x, w, hx, h⟩ := h
      obtain ⟨rfl, b, k, hb, hk, rfl⟩ := yields_as hvalue hx
      obtain ⟨rfl, rfl⟩ := (yields_pure _ _).1 h
      exact ⟨rfl, .assign hl hb hk⟩
  | some op =>
      simp only [yields_bind] at h
      obtain ⟨b, w, hb, h⟩ := h
      obtain ⟨rfl, hb⟩ := hvalue _ _ _ hb
      rw [if_neg hb.known, yields_bind] at h
      obtain ⟨x, w, hx, h⟩ := h
      obtain ⟨rfl, k, r, k', hk, hk', rfl⟩ := yields_checkCompound hx
      obtain ⟨rfl, rfl⟩ := (yields_pure _ _).1 h
      exact ⟨rfl, .compound hl hb hk hk'⟩

theorem elaborating_checkStep (increment isPrefix : Bool) (target : Tree.Expr) (span : Text.Span) :
    Elaborating ctx (checkStep increment isPrefix target)
      (.step increment isPrefix target span) := by
  intro v t u h
  rw [checkStep, yields_bind] at h
  obtain ⟨a, w, ha, h⟩ := h
  obtain ⟨rfl, name, s, l, rfl, hl, rfl⟩ := yields_target? ha
  dsimp only at h
  split at h
  · exact absurd h (yields_wrong _ _ _)
  · next p hp =>
      obtain ⟨rfl, rfl⟩ := (yields_pure _ _).1 h
      cases isPrefix with
      | true => exact ⟨rfl, .stepBefore hl hp⟩
      | false => exact ⟨rfl, .stepBehind hl hp⟩

theorem elaborating_checkConditional {condition : Part} {yes no : Check Typed} {e₀ : Tree.Expr}
    (h₀ : Elaborating ctx condition.check e₀) (hyes : Elaborating ctx yes left)
    (hno : Elaborating ctx no right) (span span' : Text.Span) :
    Elaborating ctx (checkConditional condition yes no span)
      (.conditional e₀ left right span') := by
  intro v t u h
  simp only [checkConditional, yields_bind] at h
  obtain ⟨x, w, hx, a, w', ha, b, w'', hb, h⟩ := h
  obtain ⟨rfl, d, k, hd, hk, rfl⟩ := yields_as h₀ hx
  obtain ⟨rfl, ha⟩ := hyes _ _ _ ha
  obtain ⟨rfl, hb⟩ := hno _ _ _ hb
  rw [if_neg (not_or.2 ⟨ha.known, hb.known⟩)] at h
  split at h
  · next heq =>
      obtain ⟨rfl, rfl⟩ := (yields_pure _ _).1 h
      exact ⟨rfl, .conditional hd hk ha hb (.same ha.known heq)⟩
  · next hne =>
      split at h
      · next k' s hab hba =>
          obtain ⟨rfl, rfl⟩ := (yields_pure _ _).1 h
          exact ⟨rfl, .conditional hd hk ha hb (.toSecond hne hab hba)⟩
      · next k' s hab hba =>
          obtain ⟨rfl, rfl⟩ := (yields_pure _ _).1 h
          exact ⟨rfl, .conditional hd hk ha hb (.toFirst hne hab hba)⟩
      · exact absurd h (yields_wrong _ _ _)

theorem elaborating_checkCast {operand : Part} (hc : Elaborating ctx operand.check e)
    (type : Tree.TypeRef) (span : Text.Span) :
    Elaborating ctx (checkCast type operand) (.cast type e span) := by
  intro v t u h
  simp only [checkCast, yields_bind] at h
  obtain ⟨r, w, hr, a, w', ha, h⟩ := h
  obtain ⟨rfl, d, hd, rfl⟩ := yields_resolve? hr
  obtain ⟨rfl, ha⟩ := hc _ _ _ ha
  split at h
  · next heq => cases heq
  · next hunknown _ => exact absurd hunknown ha.known
  · next target hsome _ =>
      cases hsome
      split at h
      · exact absurd h (yields_wrong _ _ _)
      · next k hk =>
          split at h
          · next n hn =>
              split at h
              · exact absurd h (yields_wrong _ _ _)
              · next hrange =>
                  obtain ⟨rfl, rfl⟩ := (yields_pure _ _).1 h
                  refine ⟨rfl, .cast hd ha hk fun m hm hnumeric => ?_⟩
                  rw [hn] at hm
                  cases hm
                  by_contra hout
                  exact hrange ⟨hnumeric, hout⟩
          · next hn =>
              obtain ⟨rfl, rfl⟩ := (yields_pure _ _).1 h
              refine ⟨rfl, .cast hd ha hk fun m hm => ?_⟩
              rw [hn] at hm
              cases hm

end

end Scriptlet.Typing
