import Scriptlet.Proofs.Typing.Scoping

namespace Scriptlet

/-!
# Reserved slots

Every variable that a statement declares takes a slot, so the slots of a method are as many as its
parameters and declared names.
-/

namespace Tree

def LocalDecl.names (d : LocalDecl) : List String :=
  d.declarators.map (·.name.name)

def ForInit.names : ForInit → List String
  | .locals d => d.names
  | .nothing | .exprs _ => []

mutual

/-- The names of the variables that a statement declares, its parts included. -/
def Stmt.names : Stmt → List String
  | .block body _ => blockNames body
  | .locals d _ => d.names
  | .cond _ yes none _ => yes.names
  | .cond _ yes (some no) _ => yes.names ++ no.names
  | .loop _ body _ | .doLoop body _ _ => body.names
  | .forLoop init _ _ body _ => init.names ++ body.names
  | .empty _ | .expr _ _ | .ret _ _ | .throw _ _ | .leave _ | .next _ => []

def blockNames : List Stmt → List String
  | [] => []
  | s :: rest => s.names ++ blockNames rest

end

/-- The names of the parameters of a method and of the variables that its body declares. -/
def Method.names (m : Method) : List String :=
  m.params.map (·.name.name) ++ blockNames m.body.body

end Tree

namespace Typing

open Scriptlet.Core (blockDeclared)

/-- There is a slot for each name, and slots that are declared are below the next free one. -/
structure Reserves (v : Variables) (names : List String) (slots : List UInt16) (u : Variables) :
    Prop where
  locals : u.draft.locals.toNat = v.draft.locals.toNat + names.length
  below : ∀ slot ∈ slots, slot < u.draft.locals

namespace Reserves

variable {v u w : Variables} {names names' : List String} {slots slots' : List UInt16}

theorem refl (v : Variables) : Reserves v [] [] v :=
  ⟨rfl, fun _ hslot => absurd hslot List.not_mem_nil⟩

theorem append (h : Reserves v names slots u) (h' : Reserves u names' slots' w) :
    Reserves v (names ++ names') (slots ++ slots') w where
  locals := by
    have hfirst := h.locals
    have hrest := h'.locals
    rw [List.length_append]
    omega
  below slot hslot := by
    rcases List.mem_append.1 hslot with hslot | hslot
    · have hlt := h.below slot hslot
      have hrest := h'.locals
      rw [UInt16.lt_iff_toNat_lt] at hlt ⊢
      omega
    · exact h'.below slot hslot

/-- A scope of its own takes no slot. -/
theorem closed (h : Reserves v.opened names slots u) : Reserves v names slots u.closed :=
  ⟨h.locals, h.below⟩

theorem spared (h : Reserves v names slots u) : Spared slots := by
  intro slot hslot
  have hlt := UInt16.lt_iff_toNat_lt.1 (h.below slot hslot)
  have htop := u.draft.locals.toNat_lt
  exact ne_top_of_toNat_lt (by omega)

end Reserves

theorem blockDeclared_of_acts {ctx : Context} {look : Look} {es : List Tree.Expr}
    {core : List Core.Stmt} (h : List.Forall₂ (Acts ctx look) es core) :
    blockDeclared core = [] := by
  induction h with
  | nil => rfl
  | cons hacts _ ih =>
      cases hacts
      rw [blockDeclared, Core.Stmt.declared, ih, List.append_nil]

section

variable {ctx : Context}

theorem DeclareAll.reserves {type : Option DataType} {v u : Variables} {ds : List Tree.Declarator}
    {core : List Core.Stmt} (h : DeclareAll ctx type v ds core u)
    (hcount : v.draft.locals.toNat + ds.length ≤ 65535) :
    Reserves v (ds.map (·.name.name)) (blockDeclared core) u := by
  induction h with
  | nil => exact .refl _
  | @cons v d t e u ds rest w _ hdeclares _ ih =>
      rw [List.length_cons] at hcount
      have hslot : v.draft.locals ≠ 0xFFFF := ne_top_of_toNat_lt (by omega)
      have hsucc := hdeclares.locals_succ hslot
      have hfirst : Reserves v [d.name.name] [v.draft.locals] u := by
        refine ⟨hsucc, fun slot hmem => ?_⟩
        rw [List.mem_singleton.1 hmem]
        exact hdeclares.locals_lt hslot
      rw [List.map_cons, blockDeclared, Core.Stmt.declared]
      exact hfirst.append (ih (by omega))

theorem Initializes.reserves {v u : Variables} {init : Tree.ForInit} {core : List Core.Stmt}
    (h : Initializes ctx v init core u)
    (hcount : v.draft.locals.toNat + init.names.length ≤ 65535) :
    Reserves v init.names (blockDeclared core) u := by
  cases h with
  | nothing => exact .refl _
  | locals _ hds =>
      rw [Tree.ForInit.names, Tree.LocalDecl.names, List.length_map] at hcount
      exact hds.reserves hcount
  | exprs hacts =>
      rw [blockDeclared_of_acts hacts]
      exact .refl _

/-- The slots of a `for` statement are those of its start and its body. -/
theorem declared_forLoop {first steps : List Core.Stmt} {c : Option Core.Expr} {b : Core.Stmt}
    {look : Look} {es : List Tree.Expr} (h : List.Forall₂ (Acts ctx look) es steps) :
    (Core.Stmt.block (first ++ [.forLoop c b steps])).declared =
      blockDeclared first ++ b.declared := by
  rw [Core.Stmt.declared, Core.blockDeclared_append, blockDeclared, Core.Stmt.declared,
    blockDeclared_of_acts h, blockDeclared, List.append_nil, List.append_nil]

mutual

theorem StmtElaborates.reserves : ∀ (s : Tree.Stmt) {inLoop : Bool} {v u : Variables}
    {core : Core.Stmt}, StmtElaborates ctx inLoop v s core u →
      v.draft.locals.toNat + s.names.length ≤ 65535 → Reserves v s.names core.declared u
  | .block body span, inLoop, v, u, core, h, hcount => by
      cases h with
      | block hbody =>
          exact (BlockElaborates.reserves body hbody hcount).closed
  | .empty span, inLoop, v, u, core, h, hcount => by
      cases h with
      | empty => exact .refl _
  | .locals d span, inLoop, v, u, core, h, hcount => by
      cases h with
      | locals _ hds =>
          rw [Tree.Stmt.names, Tree.LocalDecl.names, List.length_map] at hcount
          rw [Tree.Stmt.names, Core.Stmt.declared]
          exact hds.reserves hcount
  | .expr e span, inLoop, v, u, core, h, hcount => by
      cases h with
      | expr hacts =>
          cases hacts
          exact .refl _
  | .cond condition yes none span, inLoop, v, u, core, h, hcount => by
      cases h with
      | condOnly _ hy =>
          exact (StmtElaborates.reserves yes hy hcount).closed
  | .cond condition yes (some no) span, inLoop, v, u, core, h, hcount => by
      cases h with
      | @condElse _ _ _ _ _ _ c y w n u _ hy hn =>
          rw [Tree.Stmt.names, List.length_append] at hcount
          have hcount' : v.draft.locals.toNat + yes.names.length ≤ 65535 := by omega
          have hfirst := (StmtElaborates.reserves yes hy hcount').closed
          have hlocals : w.draft.locals.toNat = v.draft.locals.toNat + yes.names.length :=
            hfirst.locals
          have hcount'' : w.draft.locals.toNat + no.names.length ≤ 65535 := by omega
          exact hfirst.append (StmtElaborates.reserves no hn hcount'').closed
  | .loop condition body span, inLoop, v, u, core, h, hcount => by
      cases h with
      | loop _ hb =>
          exact (StmtElaborates.reserves body hb hcount).closed
  | .doLoop body condition span, inLoop, v, u, core, h, hcount => by
      cases h with
      | doLoop hb _ =>
          exact (StmtElaborates.reserves body hb hcount).closed
  | .forLoop init condition steps body span, inLoop, v, u, core, h, hcount => by
      rw [Tree.Stmt.names, List.length_append] at hcount
      have hcount' : v.draft.locals.toNat + init.names.length ≤ 65535 := by omega
      cases h with
      | @forEver _ _ _ _ _ _ first w b x s hinit hb hsteps
      | @forWhile _ _ _ _ _ _ _ first w c b x s hinit _ hb hsteps =>
          have hfirst := hinit.reserves hcount'
          have hlocals : w.draft.locals.toNat = v.draft.locals.toNat + init.names.length :=
            hfirst.locals
          have hcount'' : w.draft.locals.toNat + body.names.length ≤ 65535 := by omega
          have hsecond := (StmtElaborates.reserves body hb hcount'').closed
          rw [Tree.Stmt.names, declared_forLoop hsteps]
          exact (hfirst.append hsecond).closed
  | .ret value span, inLoop, v, u, core, h, hcount => by
      cases h <;> exact .refl _
  | .throw e span, inLoop, v, u, core, h, hcount => by
      cases h with
      | throw _ _ => exact .refl _
  | .leave span, inLoop, v, u, core, h, hcount | .next span, inLoop, v, u, core, h, hcount => by
      cases h
      exact .refl _

theorem BlockElaborates.reserves : ∀ (body : List Tree.Stmt) {inLoop : Bool} {v u : Variables}
    {core : List Core.Stmt}, BlockElaborates ctx inLoop v body core u →
      v.draft.locals.toNat + (Tree.blockNames body).length ≤ 65535 →
        Reserves v (Tree.blockNames body) (blockDeclared core) u
  | [], inLoop, v, u, core, h, hcount => by
      cases h with
      | nil => exact .refl _
  | s :: rest, inLoop, v, u, core, h, hcount => by
      cases h with
      | cons hs hrest =>
          rw [Tree.blockNames, List.length_append] at hcount
          have hfirst := StmtElaborates.reserves s hs (by omega)
          have hlocals := hfirst.locals
          exact hfirst.append (BlockElaborates.reserves rest hrest (by omega))

end

end

end Typing

end Scriptlet
