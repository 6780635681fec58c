import Scriptlet.Proofs.Typing.Acceptance.Operation

namespace Scriptlet.Typing

/-!
# Accepted names, members and calls
-/

section

variable {ctx : Context} {e : Tree.Expr} {c : Check Typed}

theorem elaborating_checkName (name : String) (span span' : Text.Span) :
    Elaborating ctx (checkName name span) (.name name span') := by
  intro v t u h
  simp only [checkName, yields_bind, yields_read, yields_lookup?] at h
  obtain ⟨_, _, ⟨rfl, rfl⟩, _, _, ⟨rfl, rfl⟩, h⟩ := h
  split at h
  · next l hl =>
      obtain ⟨rfl, rfl⟩ := (yields_pure _ _).1 h
      exact ⟨rfl, .name hl⟩
  · split at h
    · exact absurd h (yields_wrong _ _ _)
    · split at h
      · exact absurd h (yields_wrong _ _ _)
      · split at h <;> exact absurd h (yields_wrong _ _ _)

theorem yields_checkStaticMember {owner : Owner} {name : Tree.Ident} {v u : Variables} {t : Typed}
    (h : Yields (checkStaticMember owner name) ctx v t u) :
    u = v ∧ ∃ k d, Catalogue.constant? owner name.name = some (k, d) ∧
      t = .of (.literal k) d := by
  simp only [checkStaticMember, yields_bind, yields_read] at h
  obtain ⟨_, _, ⟨rfl, rfl⟩, h⟩ := h
  split at h
  · next k d hk =>
      obtain ⟨rfl, rfl⟩ := (yields_pure _ _).1 h
      exact ⟨rfl, k, d, hk, rfl⟩
  · split at h <;> split at h <;> exact absurd h (yields_wrong _ _ _)

theorem yields_checkValueMember (hc : Elaborating ctx c e) {name : Tree.Ident} {v u : Variables}
    {t : Typed} (h : Yields (checkValueMember c name) ctx v t u) :
    u = v ∧ ∃ r s routine d, Elaborates ctx v.look e r ∧ r.type = .of s ∧
      Catalogue.property? s name.name = some (routine, d) ∧
      t = .of (.routine routine [r.expr]) d := by
  rw [checkValueMember, yields_bind] at h
  obtain ⟨r, w, hr, h⟩ := h
  obtain ⟨rfl, hr⟩ := hc _ _ _ hr
  split at h
  · next hunknown => exact absurd hunknown hr.known
  · exact absurd h (yields_wrong _ _ _)
  · next s hs =>
      split at h
      · next routine d hd =>
          obtain ⟨rfl, rfl⟩ := (yields_pure _ _).1 h
          exact ⟨rfl, r, s, routine, d, hr, hs, hd, rfl⟩
      · split at h <;> exact absurd h (yields_wrong _ _ _)

end

section

variable {ctx : Context} {look : Look}

theorem ElaborateAll.length_eq {es : List Tree.Expr} {ts : List Typed}
    (h : ElaborateAll ctx look es ts) : ts.length = es.length := by
  induction es generalizing ts with
  | nil =>
      cases h
      rfl
  | cons e es ih =>
      cases h with
      | cons he hes => simp [ih hes]

theorem Fitted.takes {ts : List Typed} {params : List DataType} {es : List Core.Expr}
    (h : Fitted ts params es) :
    ((ts.map Typed.operand).zip params).all fun (a, t) => (Conversion.implicit? a t).isSome := by
  induction h with
  | nil => rfl
  | convert hc _ ih => simp [hc, ih]
  | settle hc _ ih => simp [hc, ih]

theorem fitted_settled {ts : List Typed} {params : List DataType}
    (hlength : ts.length = params.length)
    (h : ((ts.map Typed.operand).zip params).all fun (a, t) => (Conversion.implicit? a t).isSome) :
    Fitted ts params (settled ts params) := by
  induction ts generalizing params with
  | nil =>
      obtain rfl := List.length_eq_zero_iff.1 hlength.symm
      exact .nil
  | cons a ts ih =>
      cases params with
      | nil => cases hlength
      | cons t params =>
          simp only [List.map_cons, List.zip_cons_cons, List.all_cons, Bool.and_eq_true] at h
          obtain ⟨c, hc⟩ := Option.isSome_iff_exists.1 h.1
          have hrest := Fitted.settle hc (ih (Nat.succ.inj hlength) h.2)
          simpa only [settled, List.zip_cons_cons, List.map_cons, hc, Option.getD_some] using hrest

end

section

variable {ctx : Context} {v u : Variables}

/-- Arguments that are converted one after the other. -/
theorem yields_checkArgs {place : Nat} {ps : List Part} {es : List Tree.Expr}
    {params : List DataType} {xs : List Core.Expr} (hps : PartsElaborating ctx ps es)
    (hlength : ps.length = params.length) (h : Yields (checkArgs place ps params) ctx v xs u) :
    u = v ∧ ∃ ts, ElaborateAll ctx v.look es ts ∧ Fitted ts params xs := by
  induction hps generalizing place params xs u with
  | nil =>
      cases params with
      | nil =>
          obtain ⟨rfl, rfl⟩ := (yields_pure _ _).1 h
          exact ⟨rfl, [], .nil, .nil⟩
      | cons => cases hlength
  | @cons p e ps es hp _ ih =>
      cases params with
      | nil => cases hlength
      | cons t params =>
          rw [checkArgs, yields_bind] at h
          obtain ⟨a, w, ha, h⟩ := h
          obtain ⟨rfl, ha⟩ := hp _ _ _ ha
          split at h
          · next k hk =>
              simp only [pure_bind, yields_bind] at h
              obtain ⟨rest, w, hrest, h⟩ := h
              obtain ⟨rfl, ts, hts, hfit⟩ := ih (Nat.succ.inj hlength) hrest
              obtain ⟨rfl, rfl⟩ := (yields_pure _ _).1 h
              exact ⟨rfl, a :: ts, .cons ha hts, .convert hk hfit⟩
          · simp at h

theorem yields_checkAll {ps : List Part} {es : List Tree.Expr} {ts : List Typed}
    (hps : PartsElaborating ctx ps es) (h : Yields (ps.mapM Part.check) ctx v ts u) :
    u = v ∧ ElaborateAll ctx v.look es ts := by
  induction hps generalizing ts u with
  | nil =>
      rw [List.mapM_nil] at h
      obtain ⟨rfl, rfl⟩ := (yields_pure _ _).1 h
      exact ⟨rfl, .nil⟩
  | cons hp _ ih =>
      simp only [List.mapM_cons, yields_bind] at h
      obtain ⟨t, w, ht, rest, x, hrest, h⟩ := h
      obtain ⟨rfl, ht⟩ := hp _ _ _ ht
      obtain ⟨rfl, hts⟩ := ih hrest
      obtain ⟨rfl, rfl⟩ := (yields_pure _ _).1 h
      exact ⟨rfl, .cons ht hts⟩

/-- If nothing is reported about the arguments, the parameters take them. -/
theorem takes_of_reportArgs {place : Nat} {args : List (Text.Span × Typed)}
    {params : List DataType} (h : Yields (reportArgs place args params) ctx v () u) :
    ((args.map (·.2.operand)).zip params).all
      fun (a, t) => (Conversion.implicit? a t).isSome := by
  induction args generalizing place params v with
  | nil => rfl
  | cons a args ih =>
      obtain ⟨span, a⟩ := a
      cases params with
      | nil => rfl
      | cons t params =>
          rw [reportArgs] at h
          cases hc : Conversion.implicit? a.operand t with
          | none => simp [hc] at h
          | some k =>
              have hrest := ih (v := v) (by simpa [hc] using h)
              simpa [hc] using hrest

theorem yields_checkOverloads {name : Tree.Ident} {os : List Overload}
    {receiver : List Core.Expr} {ps : List Part} {es : List Tree.Expr} {t : Typed}
    (hps : PartsElaborating ctx ps es)
    (h : Yields (checkOverloads name os receiver ps) ctx v t u) :
    u = v ∧ ∃ ts o xs, ElaborateAll ctx v.look es ts ∧
      overload? os (ts.map Typed.operand) = some o ∧ Fitted ts o.params xs ∧
      t = .of (.routine o.routine (receiver ++ xs)) o.result := by
  have hcount : ∀ ts, ElaborateAll ctx v.look es ts → (ts.map Typed.operand).length = ps.length :=
    fun ts hts => by rw [List.length_map, hts.length_eq, hps.length_eq]
  have hmem : ∀ o ∈ os.filter (·.params.length == ps.length), o.params.length = ps.length := by
    intro o ho
    simpa using (List.mem_filter.1 ho).2
  unfold checkOverloads at h
  split at h
  · exact absurd h (yields_wrong _ _ _)
  · next o ho =>
      rw [yields_bind] at h
      obtain ⟨xs, w, hxs, h⟩ := h
      have hlength : ps.length = o.params.length := (hmem o (by simp [ho])).symm
      obtain ⟨rfl, ts, hts, hfit⟩ := yields_checkArgs hps hlength hxs
      obtain ⟨rfl, rfl⟩ := (yields_pure _ _).1 h
      refine ⟨rfl, ts, o, xs, hts, ?_, hfit, rfl⟩
      rw [overload?, hcount ts hts, ho]
      exact List.find?_cons_of_pos hfit.takes
  · next first others _ ho =>
      rw [yields_bind] at h
      obtain ⟨ts, w, hts, h⟩ := h
      obtain ⟨rfl, hts⟩ := yields_checkAll hps hts
      split at h
      · next o hfind =>
          obtain ⟨rfl, rfl⟩ := (yields_pure _ _).1 h
          have hlength : ts.length = o.params.length := by
            rw [hmem o (by rw [ho]; exact List.mem_of_find?_eq_some hfind), hts.length_eq,
              hps.length_eq]
          have htakes : takes o (ts.map Typed.operand) = true := by
            simpa using List.find?_some hfind
          refine ⟨rfl, ts, o, _, hts, ?_, fitted_settled hlength htakes, rfl⟩
          rw [overload?, hcount ts hts, ho]
          exact hfind
      · next hfind =>
          rw [yields_bind] at h
          obtain ⟨_, w, hreport, -⟩ := h
          have hall := takes_of_reportArgs hreport
          have hzip : ((ps.map Part.span).zip ts).map (·.2.operand) = ts.map Typed.operand := by
            have hcomp : (fun a : Text.Span × Typed => a.2.operand) = Typed.operand ∘ Prod.snd := rfl
            rw [hcomp, ← List.map_map, List.map_snd_zip]
            simp [hts.length_eq, hps.length_eq]
          rw [hzip] at hall
          exact absurd hall (List.find?_eq_none.1 hfind first List.mem_cons_self)

theorem yields_checkMethodCall {k i : Nat} {cls : ClassSignature} {m : MethodSignature}
    {qualified : Bool} {ps : List Part} {es : List Tree.Expr} {span : Text.Span} {t : Typed}
    (hps : PartsElaborating ctx ps es)
    (h : Yields (checkMethodCall k cls i m qualified ps span) ctx v t u) :
    u = v ∧ (m.isStatic = true ∨ qualified = false ∧ ctx.method.isStatic = false) ∧
      ∃ ts xs, ElaborateAll ctx v.look es ts ∧ Fitted ts m.params xs ∧
        t = .of (.call (.ofPlace k i) xs) m.result := by
  simp only [checkMethodCall, yields_bind, yields_read] at h
  obtain ⟨_, _, ⟨rfl, rfl⟩, h⟩ := h
  split at h
  · exact absurd h (yields_wrong _ _ _)
  · next hstatic =>
      split at h
      · exact absurd h (yields_wrong _ _ _)
      · next hlength =>
          rw [yields_bind] at h
          obtain ⟨xs, w, hxs, h⟩ := h
          obtain ⟨rfl, ts, hts, hfit⟩ := yields_checkArgs hps (not_not.1 hlength) hxs
          obtain ⟨rfl, rfl⟩ := (yields_pure _ _).1 h
          refine ⟨rfl, ?_, ts, xs, hts, hfit, rfl⟩
          cases hm : m.isStatic with
          | true => exact .inl rfl
          | false => simpa [hm] using hstatic

theorem elaborating_checkSimpleCall {ps : List Part} {es : List Tree.Expr}
    (hps : PartsElaborating ctx ps es) (name : String) (span span' span'' : Text.Span) :
    Elaborating ctx (checkSimpleCall name span ps) (.call (.name name span') es span'') := by
  intro v t u h
  simp only [checkSimpleCall, yields_bind, yields_read, yields_lookup?] at h
  obtain ⟨_, _, ⟨rfl, rfl⟩, _, _, ⟨rfl, rfl⟩, h⟩ := h
  split at h
  · exact absurd h (yields_wrong _ _ _)
  · next hlook =>
      split at h
      · next i m hm =>
          obtain ⟨rfl, hstatic, ts, xs, hts, hfit, rfl⟩ := yields_checkMethodCall hps h
          exact ⟨rfl, .callHere (by simpa [Variables.look] using hlook) hm
            (hstatic.imp_right And.right) hts hfit⟩
      · exact absurd h (yields_wrong _ _ _)

theorem elaborates_of_checkStaticCall {ps : List Part} {es : List Tree.Expr} {owner : Owner}
    {receiver : Tree.Expr} {name : Tree.Ident} {span span' : Text.Span} {t : Typed}
    (hps : PartsElaborating ctx ps es)
    (howner : ownerOf? ctx.signatures.names (v.look · |>.isSome) receiver = some owner)
    (h : Yields (checkStaticCall owner name ps) ctx v t u) :
    u = v ∧ Elaborates ctx v.look (.call (.member receiver name span') es span) t := by
  simp only [checkStaticCall, yields_bind, yields_read] at h
  obtain ⟨_, _, ⟨rfl, rfl⟩, h⟩ := h
  split at h
  · next k =>
      split at h
      · next c hc =>
          split at h
          · next i m hm =>
              obtain ⟨rfl, hstatic, ts, xs, hts, hfit, rfl⟩ := yields_checkMethodCall hps h
              have hm' : m.isStatic = true := by
                rcases hstatic with h | ⟨h, -⟩
                · exact h
                · cases h
              exact ⟨rfl, .callThere howner hc hm hm' hts hfit⟩
          · exact absurd h (yields_wrong _ _ _)
      · exact absurd h (yields_wrong _ _ _)
  · split at h
    · next os hos =>
        obtain ⟨rfl, ts, o, xs, hts, ho, hfit, rfl⟩ := yields_checkOverloads hps h
        exact ⟨rfl, .routine howner hos hts ho hfit⟩
    · exact absurd h (yields_wrong _ _ _)

theorem elaborates_of_checkValueCall {c : Check Typed} {ps : List Part} {es : List Tree.Expr}
    {receiver : Tree.Expr} {name : Tree.Ident} {span span' : Text.Span} {t : Typed}
    (hc : Elaborating ctx c receiver) (hps : PartsElaborating ctx ps es)
    (howner : ownerOf? ctx.signatures.names (v.look · |>.isSome) receiver = none)
    (h : Yields (checkValueCall c name ps) ctx v t u) :
    u = v ∧ Elaborates ctx v.look (.call (.member receiver name span') es span) t := by
  rw [checkValueCall, yields_bind] at h
  obtain ⟨r, w, hr, h⟩ := h
  obtain ⟨rfl, hr⟩ := hc _ _ _ hr
  split at h
  · next hunknown => exact absurd hunknown hr.known
  · exact absurd h (yields_wrong _ _ _)
  · next s hs =>
      split at h
      · next os hos =>
          obtain ⟨rfl, ts, o, xs, hts, ho, hfit, rfl⟩ := yields_checkOverloads hps h
          exact ⟨rfl, .routineOf howner hr hs hos hts ho hfit⟩
      · split at h <;> exact absurd h (yields_wrong _ _ _)

theorem elaborating_checkNew {ps : List Part} {es : List Tree.Expr}
    (hps : PartsElaborating ctx ps es) (type : Tree.TypeRef) (span span' : Text.Span) :
    Elaborating ctx (checkNew type ps span) (.new type es span') := by
  intro v t u h
  rw [checkNew, yields_bind] at h
  obtain ⟨a, w, ha, h⟩ := h
  obtain ⟨rfl, d, hd, rfl⟩ := yields_resolve? ha
  split at h
  · next heq => cases heq
  · next heq =>
      cases heq
      split at h
      · cases hps
        obtain ⟨rfl, rfl⟩ := (yields_pure _ _).1 h
        exact ⟨rfl, .newDefault hd⟩
      · rw [yields_bind] at h
        obtain ⟨xs, w, hxs, h⟩ := h
        obtain ⟨rfl, ts, hts, hfit⟩ := yields_checkArgs hps rfl hxs
        obtain ⟨rfl, rfl⟩ := (yields_pure _ _).1 h
        cases hps with
        | cons _ hnil =>
            cases hnil
            cases hts with
            | cons hm hnil =>
                cases hnil
                exact ⟨rfl, .newMessage hd hm hfit⟩
      · exact absurd h (yields_wrong _ _ _)

end

end Scriptlet.Typing
