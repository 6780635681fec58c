import Scriptlet.Proofs.Typing.Acceptance.Expr

namespace Scriptlet.Typing

/-!
# Accepted statements
-/

section

variable {ctx : Context} {v u : Variables}

theorem yields_part {e : Tree.Expr} {target : DataType} {x : Core.Expr}
    (h : Yields ((part e).as target) ctx v x u) :
    u = v ∧ ∃ t c, Elaborates ctx v.look e t ∧ Conversion.implicit? t.operand target = some c ∧
      x = .convert c target t.expr :=
  yields_as (elaborating_checkExpr e) h

theorem decides_of_part {e : Tree.Expr} {x : Core.Expr}
    (h : Yields ((part e).as .bool) ctx v x u) : u = v ∧ Decides ctx v.look e x := by
  obtain ⟨rfl, t, c, ht, hc, rfl⟩ := yields_part h
  exact ⟨rfl, .mk ht hc⟩

theorem states_of_statedType {r : Tree.TypeRef} {t : DataType}
    (h : Yields (statedType r) ctx v t u) : u = v ∧ States ctx (some r) (some t) := by
  rw [statedType, yields_bind] at h
  obtain ⟨a, w, ha, h⟩ := h
  obtain ⟨rfl, d, hd, rfl⟩ := yields_resolve? ha
  split at h
  · simp at h
  · next d' hvoid heq =>
      cases heq
      obtain ⟨rfl, rfl⟩ := (yields_pure _ _).1 h
      exact ⟨rfl, .type hd fun hd' => hvoid (by rw [hd'])⟩
  · next heq => cases heq

theorem begins_of_checkValue {type : Option DataType} {d : Tree.Declarator} {t : DataType}
    {e : Core.Expr} (h : Yields (checkValue type d) ctx v (t, e) u) :
    u = v ∧ Begins ctx v.look type d.value t e := by
  unfold checkValue at h
  split at h
  · next s e' hvalue =>
      rw [yields_bind] at h
      obtain ⟨x, w, hx, h⟩ := h
      obtain ⟨rfl, a, c, ha, hc, rfl⟩ := yields_part hx
      obtain ⟨heq, rfl⟩ := (yields_pure _ _).1 h
      cases heq
      rw [hvalue]
      exact ⟨rfl, .stated ha hc⟩
  · next s hvalue =>
      obtain ⟨heq, rfl⟩ := (yields_pure _ _).1 h
      cases heq
      rw [hvalue]
      exact ⟨rfl, .default⟩
  · next e' hvalue =>
      simp only [yields_bind] at h
      obtain ⟨a, w, ha, s, x, hs, h⟩ := h
      obtain ⟨rfl, ha⟩ := elaborating_checkExpr e' _ _ _ ha
      obtain ⟨heq, rfl⟩ := (yields_pure _ _).1 h
      cases heq
      rw [hvalue]
      unfold inferredType at hs
      split at hs
      · simp at hs
      · simp at hs
      · next d' hvoid heq =>
          obtain ⟨rfl, rfl⟩ := (yields_pure _ _).1 hs
          exact ⟨rfl, .inferred ha heq fun hd => hvoid (by rw [hd])⟩
      · next heq => exact absurd heq ha.known
  · simp at h

theorem declares_of_declare {name : Tree.Ident} {t : DataType} {slot : UInt16}
    (h : Yields (declare name t) ctx v slot u) :
    slot = v.draft.locals ∧ Declares v name.name t u := by
  unfold declare at h
  simp only [yields_bind, yields_reserve, yields_get] at h
  obtain ⟨s, w, ⟨rfl, rfl⟩, _, _, ⟨rfl, rfl⟩, h⟩ := h
  split at h
  · next scopes hs =>
      simp only [yields_modify, yields_pure, yields_bind] at h
      obtain ⟨_, w, rfl, rfl, rfl⟩ := h
      exact ⟨rfl, hs, rfl⟩
  · simp at h

theorem declareAll_of_checkDeclarators {type : Option DataType} {ds : List Tree.Declarator}
    {core : List Core.Stmt} (h : Yields (checkDeclarators type ds) ctx v core u) :
    DeclareAll ctx type v ds core u := by
  induction ds generalizing v core with
  | nil =>
      obtain ⟨rfl, rfl⟩ := (yields_pure _ _).1 h
      exact .nil
  | cons d ds ih =>
      rw [checkDeclarators, yields_bind] at h
      obtain ⟨⟨t, e⟩, w, he, h⟩ := h
      obtain ⟨rfl, he⟩ := begins_of_checkValue he
      simp only [yields_bind] at h
      obtain ⟨slot, w, hslot, rest, x, hrest, h⟩ := h
      obtain ⟨rfl, hdeclares⟩ := declares_of_declare hslot
      obtain ⟨rfl, rfl⟩ := (yields_pure _ _).1 h
      exact .cons he hdeclares (ih hrest)

theorem declareAll_of_checkLocals {d : Tree.LocalDecl} {core : List Core.Stmt}
    (h : Yields (checkLocals d) ctx v core u) :
    ∃ type, States ctx d.type type ∧ DeclareAll ctx type v d.declarators core u := by
  rw [checkLocals, yields_bind] at h
  obtain ⟨type, w, htype, h⟩ := h
  have hstates : w = v ∧ States ctx d.type type := by
    cases hd : d.type with
    | none =>
        rw [hd] at htype
        obtain ⟨rfl, rfl⟩ := (yields_pure _ _).1 htype
        exact ⟨rfl, .inferred⟩
    | some r =>
        rw [hd, Option.mapM_some] at htype
        obtain ⟨t, ht, rfl⟩ := (yields_map _ _ _).1 htype
        exact states_of_statedType ht
  obtain ⟨rfl, hstates⟩ := hstates
  dsimp only at h
  split at h
  · simp at h
  · exact ⟨_, hstates, declareAll_of_checkDeclarators h⟩

theorem acts_of_checkAction {e : Tree.Expr} {core : Core.Stmt}
    (h : Yields (checkAction e) ctx v core u) : u = v ∧ Acts ctx v.look e core := by
  unfold checkAction at h
  split at h
  · dsimp only at h
    rw [yields_bind] at h
    obtain ⟨t, w, ht, h⟩ := h
    obtain ⟨rfl, ht⟩ := elaborating_checkExpr e _ _ _ ht
    obtain ⟨rfl, rfl⟩ := (yields_pure _ _).1 h
    exact ⟨rfl, .mk ht⟩
  · simp at h

theorem acts_of_checkActions {es : List Tree.Expr} {core : List Core.Stmt}
    (h : Yields (es.mapM checkAction) ctx v core u) :
    u = v ∧ List.Forall₂ (Acts ctx v.look) es core := by
  induction es generalizing core u with
  | nil =>
      rw [List.mapM_nil] at h
      obtain ⟨rfl, rfl⟩ := (yields_pure _ _).1 h
      exact ⟨rfl, .nil⟩
  | cons e es ih =>
      simp only [List.mapM_cons, yields_bind] at h
      obtain ⟨s, w, hs, rest, x, hrest, h⟩ := h
      obtain ⟨rfl, hs⟩ := acts_of_checkAction hs
      obtain ⟨rfl, hrest⟩ := ih hrest
      obtain ⟨rfl, rfl⟩ := (yields_pure _ _).1 h
      exact ⟨rfl, .cons hs hrest⟩

theorem initializes_of_checkInit {init : Tree.ForInit} {core : List Core.Stmt}
    (h : Yields (checkInit init) ctx v core u) : Initializes ctx v init core u := by
  cases init with
  | nothing =>
      obtain ⟨rfl, rfl⟩ := (yields_pure _ _).1 h
      exact .nothing
  | locals d =>
      obtain ⟨type, htype, hdeclare⟩ := declareAll_of_checkLocals h
      exact .locals htype hdeclare
  | exprs es =>
      obtain ⟨rfl, hacts⟩ := acts_of_checkActions h
      exact .exprs hacts

theorem elaborates_of_checkReturn {inLoop : Bool} {value : Option Tree.Expr} {span : Text.Span}
    {core : Core.Stmt} (h : Yields (checkReturn value span) ctx v core u) :
    StmtElaborates ctx inLoop v (.ret value span) core u := by
  simp only [checkReturn, yields_bind, yields_read] at h
  obtain ⟨_, _, ⟨rfl, rfl⟩, h⟩ := h
  split at h
  · simp at h
  · next e t hvoid =>
      rw [yields_bind] at h
      obtain ⟨x, w, hx, h⟩ := h
      obtain ⟨rfl, a, c, ha, hc, rfl⟩ := yields_part hx
      obtain ⟨rfl, rfl⟩ := (yields_pure _ _).1 h
      exact .ret hvoid ha hc
  · next hvoid =>
      obtain ⟨rfl, rfl⟩ := (yields_pure _ _).1 h
      exact .retVoid hvoid
  · simp at h

theorem elaborates_of_checkThrow {inLoop : Bool} {e : Tree.Expr} {span : Text.Span}
    {core : Core.Stmt} (h : Yields (checkThrow e) ctx v core u) :
    StmtElaborates ctx inLoop v (.throw e span) core u := by
  rw [checkThrow, yields_bind] at h
  obtain ⟨t, w, ht, h⟩ := h
  obtain ⟨rfl, ht⟩ := elaborating_checkExpr e _ _ _ ht
  split at h
  · next hthrow =>
      obtain ⟨rfl, rfl⟩ := (yields_pure _ _).1 h
      exact .throw ht hthrow
  · simp at h

theorem yields_checkExit {inLoop : Bool} {s core : Core.Stmt} {span : Text.Span}
    (h : Yields (checkExit inLoop s span) ctx v core u) :
    inLoop = true ∧ core = s ∧ u = v := by
  cases inLoop with
  | true =>
      obtain ⟨rfl, rfl⟩ := (yields_pure _ _).1 h
      exact ⟨rfl, rfl, rfl⟩
  | false => simp [checkExit] at h

mutual

/-- A statement about which nothing is reported has been elaborated. -/
theorem elaborates_of_checkStmt : ∀ (s : Tree.Stmt) {inLoop : Bool} {v u : Variables}
    {core : Core.Stmt}, Yields (checkStmt inLoop s) ctx v core u →
      StmtElaborates ctx inLoop v s core u
  | .block body span, inLoop, v, u, core, h => by
      rw [checkStmt, yields_inScope] at h
      obtain ⟨w, h, rfl⟩ := h
      obtain ⟨b, hb, rfl⟩ := (yields_map _ _ _).1 (by simpa using h)
      exact .block (elaborates_of_checkBlock body hb)
  | .empty span, inLoop, v, u, core, h => by
      rw [checkStmt] at h
      obtain ⟨rfl, rfl⟩ := (yields_pure _ _).1 h
      exact .empty
  | .locals d span, inLoop, v, u, core, h => by
      rw [checkStmt, yields_bind] at h
      obtain ⟨ss, w, hss, h⟩ := h
      obtain ⟨type, htype, hdeclare⟩ := declareAll_of_checkLocals hss
      obtain ⟨rfl, rfl⟩ := (yields_pure _ _).1 h
      exact .locals htype hdeclare
  | .expr e span, inLoop, v, u, core, h => by
      rw [checkStmt] at h
      obtain ⟨rfl, hacts⟩ := acts_of_checkAction h
      exact .expr hacts
  | .cond condition yes none span, inLoop, v, u, core, h => by
      rw [checkStmt] at h
      simp only [yields_bind, yields_inScope] at h
      obtain ⟨c, w, hc, y, x, ⟨z, hy, rfl⟩, h⟩ := h
      obtain ⟨rfl, hc⟩ := decides_of_part hc
      obtain ⟨rfl, rfl⟩ := (yields_pure _ _).1 h
      exact .condOnly hc (elaborates_of_checkStmt yes hy)
  | .cond condition yes (some no) span, inLoop, v, u, core, h => by
      rw [checkStmt] at h
      simp only [yields_bind, yields_inScope] at h
      obtain ⟨c, w, hc, y, x, ⟨z, hy, rfl⟩, n, x, ⟨z', hn, rfl⟩, h⟩ := h
      obtain ⟨rfl, hc⟩ := decides_of_part hc
      obtain ⟨rfl, rfl⟩ := (yields_pure _ _).1 h
      exact .condElse hc (elaborates_of_checkStmt yes hy) (elaborates_of_checkStmt no hn)
  | .loop condition body span, inLoop, v, u, core, h => by
      rw [checkStmt] at h
      simp only [yields_bind, yields_inScope] at h
      obtain ⟨c, w, hc, b, x, ⟨z, hb, rfl⟩, h⟩ := h
      obtain ⟨rfl, hc⟩ := decides_of_part hc
      obtain ⟨rfl, rfl⟩ := (yields_pure _ _).1 h
      exact .loop hc (elaborates_of_checkStmt body hb)
  | .doLoop body condition span, inLoop, v, u, core, h => by
      rw [checkStmt] at h
      simp only [yields_bind, yields_inScope] at h
      obtain ⟨b, x, ⟨z, hb, rfl⟩, c, w, hpart, h⟩ := h
      obtain ⟨rfl, hc⟩ := decides_of_part hpart
      obtain ⟨rfl, rfl⟩ := (yields_pure _ _).1 h
      exact .doLoop (elaborates_of_checkStmt body hb) hc
  | .forLoop init none steps body span, inLoop, v, u, core, h => by
      rw [checkStmt, yields_inScope] at h
      simp only [Option.mapM_none, pure_bind, yields_bind, yields_inScope] at h
      obtain ⟨x, ⟨first, w, hfirst, b, y, ⟨z, hb, rfl⟩, s, z', hsteps, h⟩, rfl⟩ := h
      obtain ⟨rfl, hs⟩ := acts_of_checkActions hsteps
      obtain ⟨rfl, rfl⟩ := (yields_pure _ _).1 h
      exact .forEver (initializes_of_checkInit hfirst) (elaborates_of_checkStmt body hb) hs
  | .forLoop init (some condition) steps body span, inLoop, v, u, core, h => by
      rw [checkStmt, yields_inScope] at h
      simp only [Option.mapM_some, yields_map, yields_bind, yields_inScope] at h
      obtain ⟨x, ⟨first, w, hfirst, c, w', ⟨c', hc, rfl⟩, b, y, ⟨z, hb, rfl⟩, s, z', hsteps, h⟩,
        rfl⟩ := h
      obtain ⟨rfl, hc⟩ := decides_of_part hc
      obtain ⟨rfl, hs⟩ := acts_of_checkActions hsteps
      obtain ⟨rfl, rfl⟩ := (yields_pure _ _).1 h
      exact .forWhile (initializes_of_checkInit hfirst) hc (elaborates_of_checkStmt body hb) hs
  | .ret value span, inLoop, v, u, core, h => by
      rw [checkStmt] at h
      exact elaborates_of_checkReturn h
  | .throw e span, inLoop, v, u, core, h => by
      rw [checkStmt] at h
      exact elaborates_of_checkThrow h
  | .leave span, inLoop, v, u, core, h => by
      rw [checkStmt] at h
      obtain ⟨rfl, rfl, rfl⟩ := yields_checkExit h
      exact .leave
  | .next span, inLoop, v, u, core, h => by
      rw [checkStmt] at h
      obtain ⟨rfl, rfl, rfl⟩ := yields_checkExit h
      exact .next

theorem elaborates_of_checkBlock : ∀ (body : List Tree.Stmt) {inLoop : Bool} {v u : Variables}
    {core : List Core.Stmt}, Yields (checkBlock inLoop body) ctx v core u →
      BlockElaborates ctx inLoop v body core u
  | [], inLoop, v, u, core, h => by
      rw [checkBlock] at h
      obtain ⟨rfl, rfl⟩ := (yields_pure _ _).1 h
      exact .nil
  | s :: rest, inLoop, v, u, core, h => by
      rw [checkBlock] at h
      simp only [yields_bind] at h
      obtain ⟨first, w, hfirst, others, x, hothers, h⟩ := h
      obtain ⟨rfl, rfl⟩ := (yields_pure _ _).1 h
      exact .cons (elaborates_of_checkStmt s hfirst) (elaborates_of_checkBlock rest hothers)

end

end

end Scriptlet.Typing
