import Scriptlet.Proofs.Typing.Catalogue
import Scriptlet.Proofs.Typing.Elaboration

namespace Scriptlet.Typing

/-!
# Elaborated expressions make sense

The core expression of an accepted tree has a type, which is the one that checking has found.
-/

open Scriptlet.Core (Interface ArgsHaveTypes)

/-- The methods that a body can call, as its context knows them. -/
structure Context.Agrees (ctx : Context) (sigs : Interface) : Prop where
  own : ctx.signatures.classes[ctx.clsIndex]? = some ctx.cls
  listed : ∀ k c name i m, ctx.signatures.classes[k]? = some c → c.method? name = some (i, m) →
    sigs (.ofPlace k i) = some m
  valued : ∀ h m, sigs h = some m → .void ∉ m.params

theorem hasType_of_integer? {sigs : Interface} {vars : List Local} {n : Int} {long : Bool}
    {k : Code.Literal} {o : Operand} (h : integer? n long = some (k, o)) :
    (Core.Expr.literal k).HasType sigs vars o.type := by
  unfold integer? at h
  split at h
  · cases h
    exact .literal ⟨_, rfl⟩
  · split at h
    · cases h
      exact .literal ⟨_, rfl⟩
    · cases h

theorem hasType_of_literal? {sigs : Interface} {vars : List Local} {l : Tree.Literal}
    {k : Code.Literal} {o : Operand} (h : literal? l = some (k, o)) :
    (Core.Expr.literal k).HasType sigs vars o.type := by
  cases l with
  | int value long => exact hasType_of_integer? h
  | real x single =>
      cases single <;>
        · cases h
          exact .literal ⟨_, rfl⟩
  | string s =>
      cases h
      exact .literal (.inr ⟨_, rfl⟩)
  | char c | bool b =>
      cases h
      exact .literal ⟨_, rfl⟩
  | null =>
      cases h
      exact .null

theorem leads_of_promoted? {t u : DataType} (h : t.promoted? = some u) :
    (promotion u t).Leads (.of t) u := by
  unfold promotion
  split
  · next heq =>
      subst heq
      exact .identity u
  · refine .numeric ?_ ?_
    · rw [DataType.isArithmetic_iff_promoted?, h]
      rfl
    · cases t <;> cases h <;> rfl

/-- Adding one to a variable and subtracting it are operators on `int` or on a later type. -/
theorem of?_step {t u : DataType} (increment : Bool) (h : t.commonType? .int = some u) :
    Combiner.of? (stepOp increment) (.of t) (.of .int) =
        some (.operator (stepOp increment), u) ∧
      (promotion u t).Leads (.of u) t := by
  cases increment <;> cases t <;> cases h <;>
    first
      | exact ⟨rfl, .identity _⟩
      | exact ⟨rfl, .numeric rfl rfl⟩

theorem leads_of_compoundConversion? {op : BinaryOp} {u t : DataType} {o : Operand}
    {c : Conversion} (h : compoundConversion? op u o t = some c) : c.Leads (.of u) t := by
  have hknown : (Operand.ofType (.of u)).type ≠ .unknown := StaticType.noConfusion
  unfold compoundConversion? at h
  split at h
  · next c' hc =>
      cases h
      exact Conversion.leads_of_implicit? hknown hc
  · simp only [Option.ite_none_right_eq_some, Option.some.injEq] at h
    obtain ⟨⟨hc, -⟩, rfl⟩ := h
    exact Conversion.leads_of_explicit? hknown hc

theorem mem_of_overload? {os : List Overload} {args : List Operand} {o : Overload}
    (h : overload? os args = some o) : o ∈ os :=
  (List.mem_filter.1 (List.mem_of_find?_eq_some h)).1

theorem valued_cons {t : DataType} {ts : List DataType} (h : .void ∉ t :: ts) :
    t ≠ .void ∧ .void ∉ ts := by
  rw [List.mem_cons, not_or] at h
  exact ⟨Ne.symm h.1, h.2⟩

section

variable {ctx : Context} {sigs : Interface} {look : Look} {vars : List Local}

theorem Fitted.hasTypes {as : List Typed} {params : List DataType} {es : List Core.Expr}
    (h : Fitted as params es) (hvoid : .void ∉ params)
    (has : ∀ a ∈ as, a.expr.HasType sigs vars a.type ∧ a.type ≠ .unknown) :
    ArgsHaveTypes sigs vars es params := by
  induction h with
  | nil => exact .nil
  | convert hc _ ih =>
      obtain ⟨ha, hknown⟩ := has _ List.mem_cons_self
      have hne := valued_cons hvoid
      refine .cons hne.1 (.convert ha (Conversion.leads_of_implicit? hknown hc)) ?_
      exact ih hne.2 fun a ha => has a (List.mem_cons_of_mem _ ha)
  | settle hc _ ih =>
      obtain ⟨ha, hknown⟩ := has _ List.mem_cons_self
      have hne := valued_cons hvoid
      refine .cons hne.1 (.settle ha (Conversion.leads_of_implicit? hknown hc)) ?_
      exact ih hne.2 fun a ha => has a (List.mem_cons_of_mem _ ha)

theorem leads_of_branchConversion? {s t : StaticType} {c : Conversion} {u : DataType}
    (hs : s ≠ .unknown) (h : branchConversion? s t = some (c, u)) : t = .of u ∧ c.Leads s u := by
  cases t with
  | of t =>
      obtain ⟨c', hc, heq⟩ := Option.map_eq_some_iff.1 h
      cases heq
      have hknown : (Operand.ofType s).type ≠ .unknown := hs
      exact ⟨rfl, Conversion.leads_of_implicit? hknown hc⟩
  | null => cases h
  | unknown => cases h

theorem Joined.hasType {a b : Typed} {x y : Core.Expr} {t : StaticType} (h : Joined a b x y t)
    (ha : a.expr.HasType sigs vars a.type) (hb : b.expr.HasType sigs vars b.type)
    (hknowna : a.type ≠ .unknown) (hknownb : b.type ≠ .unknown) :
    x.HasType sigs vars t ∧ y.HasType sigs vars t := by
  cases h with
  | same _ heq =>
      rw [← heq] at hb
      exact ⟨.kept ha, .kept hb⟩
  | toSecond _ hc _ =>
      obtain ⟨ht, hleads⟩ := leads_of_branchConversion? hknowna hc
      refine ⟨?_, .kept hb⟩
      rw [ht]
      exact .settle ha hleads
  | toFirst _ _ hc =>
      obtain ⟨ht, hleads⟩ := leads_of_branchConversion? hknownb hc
      refine ⟨.kept ha, ?_⟩
      rw [ht]
      exact .settle hb hleads

mutual

/-- An elaborated expression has the type that checking has found. -/
theorem Elaborates.hasType (hctx : ctx.Agrees sigs) (hlook : ∀ name l, look name = some l → l ∈ vars) :
    ∀ (e : Tree.Expr) {t : Typed}, Elaborates ctx look e t → t.expr.HasType sigs vars t.type
  | .literal l span, t, h => by
      cases h with
      | literal hl => exact hasType_of_literal? hl
  | .name name span, t, h => by
      cases h with
      | name hl => exact .load (hlook _ _ hl)
  | .type _ _, t, h => nomatch h
  | .member receiver name span, t, h => by
      cases h with
      | constant _ hk => exact .literal (Catalogue.conforms_constant? hk)
      | property _ hr hs hp =>
          have htakes := Catalogue.takes_property? hp
          have hreceiver := Elaborates.hasType hctx hlook receiver hr
          rw [hs] at hreceiver
          exact .routine htakes (.cons (valued_cons htakes.valued).1 hreceiver .nil)
  | .call (.name name span') args span, t, h => by
      cases h with
      | callHere _ hm _ hargs hfit =>
          have hsig := hctx.listed _ _ _ _ _ hctx.own hm
          exact .call hsig (hfit.hasTypes (hctx.valued _ _ hsig)
            (ElaborateAll.hasType hctx hlook args hargs))
  | .call (.member receiver name span') args span, t, h => by
      cases h with
      | callThere _ hc hm _ hargs hfit =>
          have hsig := hctx.listed _ _ _ _ _ hc hm
          exact .call hsig (hfit.hasTypes (hctx.valued _ _ hsig)
            (ElaborateAll.hasType hctx hlook args hargs))
      | routine _ hos hargs ho hfit =>
          have htakes := Catalogue.takes_staticMethods? hos (mem_of_overload? ho)
          exact .routine htakes (hfit.hasTypes htakes.valued
            (ElaborateAll.hasType hctx hlook args hargs))
      | routineOf _ hr hs hos hargs ho hfit =>
          have htakes := Catalogue.takes_methods? hos (mem_of_overload? ho)
          have hreceiver := Elaborates.hasType hctx hlook receiver hr
          rw [hs] at hreceiver
          have hvalued := valued_cons htakes.valued
          exact .routine htakes (.cons hvalued.1 hreceiver (hfit.hasTypes hvalued.2
            (ElaborateAll.hasType hctx hlook args hargs)))
  | .call (.literal _ _) _ _, t, h | .call (.type _ _) _ _, t, h | .call (.call _ _ _) _ _, t, h
  | .call (.index _ _ _) _ _, t, h | .call (.new _ _ _) _ _, t, h
  | .call (.unary _ _ _) _ _, t, h | .call (.binary _ _ _ _) _ _, t, h
  | .call (.assign _ _ _ _) _ _, t, h | .call (.step _ _ _ _) _ _, t, h
  | .call (.conditional _ _ _ _) _ _, t, h | .call (.cast _ _ _) _ _, t, h => nomatch h
  | .index receiver index span, t, h => by
      cases h with
      | index hr hs hi hc =>
          have hreceiver := Elaborates.hasType hctx hlook receiver hr
          have hindex := Elaborates.hasType hctx hlook index hi
          rw [hs] at hreceiver
          refine .routine .charAt (.cons DataType.noConfusion hreceiver ?_)
          refine .cons DataType.noConfusion (.convert hindex ?_) .nil
          exact Conversion.leads_of_implicit? hi.known hc
  | .new type [] span, t, h => by
      cases h with
      | newDefault _ => exact .routine (.newDefault _) .nil
  | .new type (message :: rest) span, t, h => by
      cases h with
      | newMessage _ hm hfit =>
          refine .routine (.newException _) (hfit.hasTypes (by simp) fun a ha => ?_)
          obtain rfl := List.mem_singleton.1 ha
          exact ⟨Elaborates.hasType hctx hlook message hm, hm.known⟩
  | .unary .plus operand span, t, h => by
      cases h with
      | plus he hs hp =>
          have hoperand := Elaborates.hasType hctx hlook operand he
          rw [hs] at hoperand
          exact .convert hoperand (leads_of_promoted? hp)
  | .unary (.strict op) operand span, t, h => by
      cases h with
      | negative hk => exact hasType_of_integer? hk
      | unary _ he hs hop =>
          have hoperand := Elaborates.hasType hctx hlook operand he
          rw [hs] at hoperand
          exact .unary hoperand hop
  | .binary .andAlso left right span, t, h => by
      cases h with
      | andAlso hl hr hlt hrt =>
          have hleft := Elaborates.hasType hctx hlook left hl
          have hright := Elaborates.hasType hctx hlook right hr
          rw [hlt] at hleft
          rw [hrt] at hright
          exact .andAlso hleft hright
  | .binary .orElse left right span, t, h => by
      cases h with
      | orElse hl hr hlt hrt =>
          have hleft := Elaborates.hasType hctx hlook left hl
          have hright := Elaborates.hasType hctx hlook right hr
          rw [hlt] at hleft
          rw [hrt] at hright
          exact .orElse hleft hright
  | .binary (.strict op) left right span, t, h => by
      cases h with
      | binary hl hr hc =>
          exact .combine (Elaborates.hasType hctx hlook left hl)
            (Elaborates.hasType hctx hlook right hr) hc
  | .assign op target value span, t, h => by
      cases h with
      | assign hl he hc =>
          have hvalue := Elaborates.hasType hctx hlook value he
          exact .assign (hlook _ _ hl)
            (.convert hvalue (Conversion.leads_of_implicit? he.known hc))
      | compound hl he hk hc =>
          have hvalue := Elaborates.hasType hctx hlook value he
          have hmem := hlook _ _ hl
          exact .assign hmem (.convert (.combine (.load hmem) hvalue hk)
            (leads_of_compoundConversion? hc))
  | .step increment isPrefix target span, t, h => by
      cases h with
      | stepBefore hl hu =>
          obtain ⟨hop, hc⟩ := of?_step increment hu
          have hmem := hlook _ _ hl
          have hone : (Core.Expr.literal (.int 1)).HasType sigs vars (.of .int) := .literal ⟨1, rfl⟩
          exact .assign hmem (.convert (.combine (.load hmem) hone hop) hc)
      | stepBehind hl hu =>
          obtain ⟨hop, hc⟩ := of?_step increment hu
          exact .advance (hlook _ _ hl) hop hc
  | .conditional condition yes no span, t, h => by
      cases h with
      | conditional hd hk ha hb hj =>
          have hcondition := Elaborates.hasType hctx hlook condition hd
          obtain ⟨hx, hy⟩ := hj.hasType (Elaborates.hasType hctx hlook yes ha)
            (Elaborates.hasType hctx hlook no hb) ha.known hb.known
          exact .choose (.convert hcondition (Conversion.leads_of_implicit? hd.known hk)) hx hy
  | .cast type operand span, t, h => by
      cases h with
      | cast _ he hc _ =>
          have hoperand := Elaborates.hasType hctx hlook operand he
          exact .convert hoperand (Conversion.leads_of_explicit? he.known hc)

theorem ElaborateAll.hasType (hctx : ctx.Agrees sigs)
    (hlook : ∀ name l, look name = some l → l ∈ vars) : ∀ (es : List Tree.Expr) {ts : List Typed},
    ElaborateAll ctx look es ts →
      ∀ a ∈ ts, a.expr.HasType sigs vars a.type ∧ a.type ≠ .unknown
  | [], ts, h => by
      cases h with
      | nil => exact fun a ha => absurd ha List.not_mem_nil
  | e :: es, ts, h => by
      cases h with
      | cons he hes =>
          intro a ha
          rcases List.mem_cons.1 ha with rfl | ha
          · exact ⟨Elaborates.hasType hctx hlook e he, he.known⟩
          · exact ElaborateAll.hasType hctx hlook es hes a ha

end

end

end Scriptlet.Typing
