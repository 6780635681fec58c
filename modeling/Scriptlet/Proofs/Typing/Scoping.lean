import Mathlib.Data.List.Nodup
import Scriptlet.Proofs.Code.Draft
import Scriptlet.Proofs.Core.Slots
import Scriptlet.Proofs.Typing.Elaboration

namespace Scriptlet.Typing

/-!
# Scoping

Where a statement is elaborated, the visible variables have slots of their own. What a statement
declares is added to the innermost scope, so closing the scope brings back the variables from before.
-/

namespace Scopes

theorem mem_of_lookup? {frames : List (List (String × Local))} {name : String} {l : Local}
    (h : (⟨frames⟩ : Scriptlet.Scopes).lookup? name = some l) : (name, l) ∈ frames.flatten := by
  obtain ⟨frame, hframe, hl⟩ := List.exists_of_findSome?_eq_some h
  refine List.mem_flatten.2 ⟨frame, hframe, ?_⟩
  obtain ⟨before, after, rfl, -⟩ := List.lookup_eq_some_iff.1 hl
  simp

end Scopes

namespace Variables

/-- The visible variables with their names, the innermost ones first. -/
def entries (v : Variables) : List (String × Local) :=
  v.scopes.frames.flatten

def locals (v : Variables) : List Local :=
  v.entries.map Prod.snd

theorem mem_entries_of_look {v : Variables} {name : String} {l : Local}
    (h : v.look name = some l) : (name, l) ∈ v.entries :=
  Scopes.mem_of_lookup? h

theorem mem_locals_of_look {v : Variables} {name : String} {l : Local}
    (h : v.look name = some l) : l ∈ v.locals :=
  List.mem_map_of_mem (mem_entries_of_look h)

@[simp] theorem locals_opened (v : Variables) : v.opened.locals = v.locals := rfl

@[simp] theorem look_opened (v : Variables) : v.opened.look = v.look := rfl

theorem eq_of_slot_eq {v : Variables} {name name' : String} {l l' : Local}
    (hseparate : v.entries.Pairwise fun a b => a.2.slot ≠ b.2.slot) (hl : v.look name = some l)
    (hl' : v.look name' = some l') (hslot : l.slot = l'.slot) : name = name' := by
  have hnodup : (v.entries.map fun e => e.2.slot).Nodup := List.pairwise_map.2 hseparate
  have heq := List.inj_on_of_nodup_map hnodup (mem_entries_of_look hl) (mem_entries_of_look hl') hslot
  exact congrArg Prod.fst heq

/-- Every visible variable has a slot of its own, below the next free one. -/
structure Orderly (v : Variables) : Prop where
  active : v.scopes.frames ≠ []
  separate : v.entries.Pairwise fun a b => a.2.slot ≠ b.2.slot
  below : ∀ e ∈ v.entries, e.2.slot < v.draft.locals

theorem Orderly.opened {v : Variables} (h : v.Orderly) : v.opened.Orderly :=
  ⟨List.cons_ne_nil _ _, h.separate, h.below⟩

/-- What elaborating can do to the variables: it declares more of them in the innermost scope. -/
structure Grows (v u : Variables) : Prop where
  outer : u.scopes.frames.tail = v.scopes.frames.tail
  look : ∀ name l, v.look name = some l → u.look name = some l
  code : u.draft.code = v.draft.code
  literals : u.draft.literals = v.draft.literals
  locals : v.draft.locals ≤ u.draft.locals

namespace Grows

variable {v u w : Variables}

theorem refl (v : Variables) : Grows v v :=
  ⟨rfl, fun _ _ h => h, rfl, rfl, UInt16.le_refl _⟩

theorem trans (h : Grows v u) (h' : Grows u w) : Grows v w :=
  ⟨h'.outer.trans h.outer, fun name l hl => h'.look name l (h.look name l hl),
    h'.code.trans h.code, h'.literals.trans h.literals, UInt16.le_trans h.locals h'.locals⟩

/-- Closing a scope that was opened before. -/
theorem scopes_closed (h : Grows v.opened u) : u.closed.scopes = v.scopes := by
  have houter : u.scopes.frames.tail = v.scopes.frames := h.outer
  simp only [closed, Scriptlet.Scopes.pop, houter]

theorem closed (h : Grows v.opened u) : Grows v u.closed where
  outer := by rw [h.scopes_closed]
  look name l hl := by rwa [Variables.look, h.scopes_closed]
  code := h.code
  literals := h.literals
  locals := h.locals

theorem look_closed (h : Grows v.opened u) : u.closed.look = v.look := by
  rw [Variables.look, h.scopes_closed]
  rfl

theorem entries_closed (h : Grows v.opened u) : u.closed.entries = v.entries := by
  rw [Variables.entries, h.scopes_closed]
  rfl

theorem locals_closed (h : Grows v.opened u) : u.closed.locals = v.locals := by
  rw [Variables.locals, h.entries_closed]
  rfl

theorem orderly_closed (h : Grows v.opened u) (hv : v.Orderly) : u.closed.Orderly where
  active := by
    rw [h.scopes_closed]
    exact hv.active
  separate := by
    rw [h.entries_closed]
    exact hv.separate
  below e he := by
    rw [h.entries_closed] at he
    exact UInt16.lt_of_lt_of_le (hv.below e he) h.locals

end Grows

end Variables

open Scriptlet.Core (blockDeclared)
open Variables

theorem binds_eq_false {frame : List (String × Local)} {name : String} :
    Scriptlet.Scopes.binds frame name = false ↔ frame.lookup name = none := by
  unfold Scriptlet.Scopes.binds
  cases frame.lookup name <;> simp

/-- Declaring a name adds it to the innermost scope, where no open scope has it. -/
theorem frames_of_declare {s s' : Scriptlet.Scopes} {name : String} {l : Local}
    {inner : List (String × Local)} {outer : List (List (String × Local))}
    (hs : s.frames = inner :: outer) (h : s.declare name l = .ok s') :
    s'.frames = ((name, l) :: inner) :: outer ∧ s.lookup? name = none := by
  unfold Scriptlet.Scopes.declare at h
  rw [hs] at h
  dsimp only at h
  split at h
  · cases h
  · next hinner =>
      split at h
      · cases h
      · next houter =>
          cases h
          refine ⟨rfl, ?_⟩
          rw [Bool.not_eq_true, binds_eq_false] at hinner
          rw [Scriptlet.Scopes.lookup?, hs, List.findSome?_cons, hinner]
          refine List.findSome?_eq_none_iff.2 fun frame hframe => ?_
          rw [← binds_eq_false]
          by_contra hbound
          exact houter (List.any_eq_true.2 ⟨frame, hframe, by simpa using hbound⟩)

theorem ne_top_of_toNat_lt {slot : UInt16} (h : slot.toNat < 65535) : slot ≠ 0xFFFF := by
  intro heq
  rw [heq] at h
  exact absurd h (by decide)

namespace Declares

variable {v u : Variables} {name : String} {t : DataType}

theorem locals_succ (h : Declares v name t u) (hslot : v.draft.locals ≠ 0xFFFF) :
    u.draft.locals.toNat = v.draft.locals.toNat + 1 := by
  have hlt : v.draft.locals.toNat < 65535 := by
    have h16 := v.draft.locals.toNat_lt
    have hne : v.draft.locals.toNat ≠ 65535 := fun heq => hslot (UInt16.toNat_inj.1 heq)
    omega
  rw [h.draft, Code.Drafting.toNat_locals_reserve _ hlt]

/-- A slot below the greatest one is below the next. -/
theorem locals_lt (h : Declares v name t u) (hslot : v.draft.locals ≠ 0xFFFF) :
    v.draft.locals < u.draft.locals := by
  rw [UInt16.lt_iff_toNat_lt, h.locals_succ hslot]
  exact Nat.lt_succ_self _

theorem locals_le (h : Declares v name t u) : v.draft.locals ≤ u.draft.locals := by
  rw [h.draft]
  exact Code.Drafting.le_locals_reserve _

theorem entries (h : Declares v name t u) (hv : v.scopes.frames ≠ []) :
    u.entries = (name, ⟨v.draft.locals, t⟩) :: v.entries := by
  cases hs : v.scopes.frames with
  | nil => exact absurd hs hv
  | cons inner outer =>
      have hframes := (frames_of_declare hs h.scopes).1
      rw [Variables.entries, hframes, Variables.entries, hs]
      rfl

theorem active (h : Declares v name t u) (hv : v.scopes.frames ≠ []) : u.scopes.frames ≠ [] := by
  intro hu
  have hentries := h.entries hv
  rw [Variables.entries, hu] at hentries
  cases hentries

theorem locals_eq (h : Declares v name t u) (hv : v.scopes.frames ≠ []) :
    u.locals = ⟨v.draft.locals, t⟩ :: v.locals := by
  rw [Variables.locals, h.entries hv]
  rfl

theorem fresh (h : Declares v name t u) (hv : v.scopes.frames ≠ []) : v.look name = none := by
  cases hs : v.scopes.frames with
  | nil => exact absurd hs hv
  | cons inner outer => exact (frames_of_declare hs h.scopes).2

theorem look_eq (h : Declares v name t u) (hv : v.scopes.frames ≠ []) (name' : String) :
    u.look name' = if name' = name then some ⟨v.draft.locals, t⟩ else v.look name' := by
  cases hs : v.scopes.frames with
  | nil => exact absurd hs hv
  | cons inner outer =>
      have hframes := (frames_of_declare hs h.scopes).1
      rw [Variables.look, Scriptlet.Scopes.lookup?, hframes, Variables.look,
        Scriptlet.Scopes.lookup?, hs, List.findSome?_cons, List.findSome?_cons, List.lookup_cons]
      by_cases hname : name' = name
      · simp [hname]
      · rw [if_neg hname, beq_eq_false_iff_ne.2 hname]

theorem grows (h : Declares v name t u) : Grows v u where
  outer := by
    cases hs : v.scopes.frames with
    | nil =>
        have hscopes := h.scopes
        rw [Scriptlet.Scopes.declare, hs] at hscopes
        rw [← Except.ok.inj hscopes, hs]
    | cons inner outer =>
        rw [(frames_of_declare hs h.scopes).1]
        rfl
  look name' l hl := by
    have hv : v.scopes.frames ≠ [] := by
      intro hs
      rw [Variables.look, Scriptlet.Scopes.lookup?, hs] at hl
      cases hl
    rw [h.look_eq hv]
    split
    · next heq =>
        rw [heq, h.fresh hv] at hl
        cases hl
    · exact hl
  code := by rw [h.draft]; rfl
  literals := by rw [h.draft]; rfl
  locals := h.locals_le

theorem orderly (h : Declares v name t u) (hv : v.Orderly) (hslot : v.draft.locals ≠ 0xFFFF) :
    u.Orderly where
  active := h.active hv.active
  separate := by
    rw [h.entries hv.active]
    refine .cons (fun e he heq => ?_) hv.separate
    have hbelow := hv.below e he
    rw [← heq] at hbelow
    exact UInt16.lt_irrefl _ hbelow
  below e he := by
    rw [h.entries hv.active] at he
    rcases List.mem_cons.1 he with rfl | he
    · exact h.locals_lt hslot
    · exact UInt16.lt_trans (hv.below e he) (h.locals_lt hslot)

end Declares

section

variable {ctx : Context}

theorem DeclareAll.grows {type : Option DataType} {v u : Variables} {ds : List Tree.Declarator}
    {core : List Core.Stmt} (h : DeclareAll ctx type v ds core u) : Grows v u := by
  induction h with
  | nil => exact .refl _
  | cons _ hdeclares _ ih => exact hdeclares.grows.trans ih

theorem Initializes.grows {v u : Variables} {init : Tree.ForInit} {core : List Core.Stmt}
    (h : Initializes ctx v init core u) : Grows v u := by
  cases h with
  | nothing => exact .refl _
  | locals _ hds => exact hds.grows
  | exprs _ => exact .refl _

mutual

theorem StmtElaborates.grows : ∀ (s : Tree.Stmt) {inLoop : Bool} {v u : Variables}
    {core : Core.Stmt}, StmtElaborates ctx inLoop v s core u → Grows v u
  | .block body span, inLoop, v, u, core, h => by
      cases h with
      | block hbody => exact (BlockElaborates.grows body hbody).closed
  | .empty span, inLoop, v, u, core, h => by
      cases h with
      | empty => exact .refl _
  | .locals d span, inLoop, v, u, core, h => by
      cases h with
      | locals _ hds => exact hds.grows
  | .expr e span, inLoop, v, u, core, h => by
      cases h with
      | expr _ => exact .refl _
  | .cond condition yes none span, inLoop, v, u, core, h => by
      cases h with
      | condOnly _ hy => exact (StmtElaborates.grows yes hy).closed
  | .cond condition yes (some no) span, inLoop, v, u, core, h => by
      cases h with
      | condElse _ hy hn =>
          exact (StmtElaborates.grows yes hy).closed.trans (StmtElaborates.grows no hn).closed
  | .loop condition body span, inLoop, v, u, core, h => by
      cases h with
      | loop _ hb => exact (StmtElaborates.grows body hb).closed
  | .doLoop body condition span, inLoop, v, u, core, h => by
      cases h with
      | doLoop hb _ => exact (StmtElaborates.grows body hb).closed
  | .forLoop init condition steps body span, inLoop, v, u, core, h => by
      cases h with
      | forEver hinit hb _ => exact (hinit.grows.trans (StmtElaborates.grows body hb).closed).closed
      | forWhile hinit _ hb _ =>
          exact (hinit.grows.trans (StmtElaborates.grows body hb).closed).closed
  | .ret value span, inLoop, v, u, core, h => by
      cases h <;> exact .refl _
  | .throw e span, inLoop, v, u, core, h => by
      cases h with
      | throw _ _ => exact .refl _
  | .leave span, inLoop, v, u, core, h | .next span, inLoop, v, u, core, h => by
      cases h
      exact .refl _

theorem BlockElaborates.grows : ∀ (body : List Tree.Stmt) {inLoop : Bool} {v u : Variables}
    {core : List Core.Stmt}, BlockElaborates ctx inLoop v body core u → Grows v u
  | [], inLoop, v, u, core, h => by
      cases h with
      | nil => exact .refl _
  | s :: rest, inLoop, v, u, core, h => by
      cases h with
      | cons hs hrest => exact (StmtElaborates.grows s hs).trans (BlockElaborates.grows rest hrest)

end

/-- The slots that are left: the greatest one is not declared. -/
def Spared (slots : List UInt16) : Prop :=
  ∀ slot ∈ slots, slot ≠ 0xFFFF

theorem spared_append {first rest : List UInt16} (h : Spared (first ++ rest)) :
    Spared first ∧ Spared rest :=
  ⟨fun slot hslot => h slot (List.mem_append_left _ hslot),
    fun slot hslot => h slot (List.mem_append_right _ hslot)⟩

/-- The declarations of a `for` statement are those of its start, its body and its steps. -/
theorem spared_forLoop {first steps : List Core.Stmt} {c : Option Core.Expr} {b : Core.Stmt}
    (h : Spared (Core.Stmt.block (first ++ [.forLoop c b steps])).declared) :
    Spared (blockDeclared first) ∧ Spared b.declared := by
  rw [Core.Stmt.declared, Core.blockDeclared_append] at h
  obtain ⟨hfirst, hrest⟩ := spared_append h
  rw [blockDeclared, Core.Stmt.declared] at hrest
  exact ⟨hfirst, (spared_append (spared_append hrest).1).1⟩

theorem DeclareAll.orderly {type : Option DataType} {v u : Variables} {ds : List Tree.Declarator}
    {core : List Core.Stmt} (h : DeclareAll ctx type v ds core u) (hv : v.Orderly)
    (hspared : Spared (blockDeclared core)) : u.Orderly := by
  induction h with
  | nil => exact hv
  | @cons v d t e u ds rest w _ hdeclares _ ih =>
      obtain ⟨hfirst, hrest⟩ := spared_append hspared
      have hslot : v.draft.locals ≠ 0xFFFF := hfirst _ (by simp [Core.Stmt.declared])
      exact ih (hdeclares.orderly hv hslot) hrest

theorem Initializes.orderly {v u : Variables} {init : Tree.ForInit} {core : List Core.Stmt}
    (h : Initializes ctx v init core u) (hv : v.Orderly)
    (hspared : Spared (blockDeclared core)) : u.Orderly := by
  cases h with
  | nothing => exact hv
  | locals _ hds => exact hds.orderly hv hspared
  | exprs _ => exact hv

/-- Slots do not clash behind a statement either. -/
theorem StmtElaborates.orderly {s : Tree.Stmt} {inLoop : Bool} {v u : Variables}
    {core : Core.Stmt} (h : StmtElaborates ctx inLoop v s core u) (hv : v.Orderly)
    (hspared : Spared core.declared) : u.Orderly := by
  cases h with
  | block hbody => exact (BlockElaborates.grows _ hbody).orderly_closed hv
  | locals _ hds =>
      rw [Core.Stmt.declared] at hspared
      exact hds.orderly hv hspared
  | condOnly _ hy => exact (StmtElaborates.grows _ hy).orderly_closed hv
  | condElse _ hy hn =>
      exact (StmtElaborates.grows _ hn).orderly_closed
        ((StmtElaborates.grows _ hy).orderly_closed hv)
  | loop _ hb => exact (StmtElaborates.grows _ hb).orderly_closed hv
  | doLoop hb _ => exact (StmtElaborates.grows _ hb).orderly_closed hv
  | forEver hinit hb _ =>
      exact (hinit.grows.trans (StmtElaborates.grows _ hb).closed).orderly_closed hv
  | forWhile hinit _ hb _ =>
      exact (hinit.grows.trans (StmtElaborates.grows _ hb).closed).orderly_closed hv
  | _ => exact hv

end

end Scriptlet.Typing
