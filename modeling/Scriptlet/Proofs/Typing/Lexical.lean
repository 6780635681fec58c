import Scriptlet.Proofs.Typing.Scoping

namespace Scriptlet.Typing

open Variables

/-!
# Lexical scopes

Scopes are followed through everything that can happen to them: they are opened and closed, and
variables are declared in the innermost one. A name always means the declaration of it that is still
in force, so that closing a scope brings back the meaning that names had when it was opened.
-/

/-- What happens to the scopes of a body and to the slots of its draft. -/
inductive Event where
  | opened
  | closed
  | declared (name : String) (l : Local)
  /-- A declaration that fails. -/
  | refused (name : String)
  /-- A slot is reserved for something else. -/
  | reserved

/-- Whether an event takes a slot, as a declaration does also if it fails. -/
def Event.takesSlot : Event → Bool
  | .opened | .closed => false
  | .declared _ _ | .refused _ | .reserved => true

/-- How many scopes are open that were opened by the events, the latest of which comes first; none
if they close the scope in which they began. -/
def level : List Event → Option ℕ
  | [] => some 0
  | .opened :: later => (level later).map (· + 1)
  | .closed :: later => (level later).bind fun n => if n = 0 then none else some (n - 1)
  | .declared _ _ :: later | .refused _ :: later | .reserved :: later => level later

/-- A declaration in a scope that is still open, `k` scopes out from the innermost one. -/
def InForce (history : List Event) (name : String) (l : Local) (k : ℕ) : Prop :=
  ∃ later earlier, history = later ++ .declared name l :: earlier ∧ level later = some k

namespace Variables

/-- The variables after a slot is reserved. -/
def reserved (v : Variables) : Variables :=
  ⟨v.scopes, (Code.Drafting.reserve.run v.draft).2⟩

/-- The variables after a declaration, which takes a slot also if it fails. -/
def declaring (v : Variables) (name : String) (t : DataType) : Variables :=
  ⟨((v.scopes.declare name ⟨v.draft.locals, t⟩).toOption).getD v.scopes, v.reserved.draft⟩

/-- What a declaration comes to. -/
def declaration (v : Variables) (name : String) (t : DataType) : Event :=
  match v.scopes.declare name ⟨v.draft.locals, t⟩ with
  | .ok _ => .declared name ⟨v.draft.locals, t⟩
  | .error _ => .refused name

/-- What is reported about a declaration. -/
def complaints (v : Variables) (name : Tree.Ident) (t : DataType) : List Report :=
  match v.scopes.declare name.name ⟨v.draft.locals, t⟩ with
  | .ok _ => []
  | .error r => [⟨Redeclaration.error name.name r, name.span⟩]

end Variables

/-- The variables after some events, the latest of which comes first. Scopes are closed and names
are declared only while a scope is open; in between, code is written. -/
inductive Reached : List Event → Variables → Prop
  | start {d} : d.locals = 0 → Reached [] ⟨.empty, d⟩
  | opened {past v} : Reached past v → Reached (.opened :: past) v.opened
  | closed {past v} : Reached past v → v.scopes.frames ≠ [] → Reached (.closed :: past) v.closed
  | declares {past v} (name t) : Reached past v → v.scopes.frames ≠ [] →
      Reached (v.declaration name t :: past) (v.declaring name t)
  | reserves {past v} : Reached past v → Reached (.reserved :: past) v.reserved
  | writes {past v d} : Reached past v → d.locals = v.draft.locals → Reached past ⟨v.scopes, d⟩

/-! ### Levels -/

section

variable {later body : List Event} {name : String} {l : Local} {k m : ℕ}

@[simp] theorem level_opened : level (.opened :: later) = some k ↔
    ∃ n, level later = some n ∧ n + 1 = k :=
  Option.map_eq_some_iff

@[simp] theorem level_closed : level (.closed :: later) = some k ↔ level later = some (k + 1) := by
  rw [level, Option.bind_eq_some_iff]
  constructor
  · rintro ⟨n, hn, hk⟩
    split at hk
    · cases hk
    · obtain rfl := Option.some.inj hk
      rwa [Nat.sub_add_cancel (by omega)]
  · intro h
    exact ⟨k + 1, h, rfl⟩

/-- Scopes are counted on from the events before. -/
theorem level_append (hbody : level body = some m) :
    level (body ++ later) = some k ↔ ∃ n, level later = some n ∧ m + n = k := by
  induction body generalizing m k with
  | nil =>
      obtain rfl : 0 = m := Option.some.inj hbody
      simp
  | cons e body ih =>
      cases e with
      | opened =>
          obtain ⟨n, hn, rfl⟩ := level_opened.1 hbody
          simp only [List.cons_append, level_opened, ih hn]
          constructor
          · rintro ⟨_, ⟨j, hj, rfl⟩, rfl⟩
            exact ⟨j, hj, by omega⟩
          · rintro ⟨j, hj, rfl⟩
            exact ⟨n + j, ⟨j, hj, rfl⟩, by omega⟩
      | closed =>
          have hbody' := level_closed.1 hbody
          simp only [List.cons_append, level_closed, ih hbody']
          constructor
          · rintro ⟨j, hj, h⟩
            exact ⟨j, hj, by omega⟩
          · rintro ⟨j, hj, rfl⟩
            exact ⟨j, hj, by omega⟩
      | declared _ _ | refused _ | reserved => exact ih hbody

theorem exists_level_of_append (h : level (body ++ later) = some k) : ∃ n, level later = some n := by
  induction body generalizing k with
  | nil => exact ⟨k, h⟩
  | cons e body ih =>
      cases e with
      | opened =>
          obtain ⟨n, hn, -⟩ := level_opened.1 h
          exact ih hn
      | closed => exact ih (level_closed.1 h)
      | declared _ _ | refused _ | reserved => exact ih h

end

/-! ### Declarations in force -/

section

variable {past : List Event} {name name' : String} {l l' : Local} {k : ℕ}

theorem not_inForce_nil : ¬InForce [] name l k := by
  rintro ⟨later, earlier, h, -⟩
  simp at h

theorem inForce_cons {e : Event} : InForce (e :: past) name l k ↔
    (e = .declared name l ∧ k = 0) ∨
      ∃ later earlier, past = later ++ .declared name l :: earlier ∧
        level (e :: later) = some k := by
  constructor
  · rintro ⟨later, earlier, h, hlevel⟩
    cases later with
    | nil => exact .inl ⟨(List.cons.inj h).1, (Option.some.inj hlevel).symm⟩
    | cons e' later =>
        obtain ⟨rfl, rfl⟩ := List.cons.inj h
        exact .inr ⟨later, earlier, rfl, hlevel⟩
  · rintro (⟨rfl, rfl⟩ | ⟨later, earlier, rfl, hlevel⟩)
    · exact ⟨[], past, rfl, rfl⟩
    · exact ⟨e :: later, earlier, rfl, hlevel⟩

theorem inForce_opened : InForce (.opened :: past) name l k ↔
    ∃ n, InForce past name l n ∧ n + 1 = k := by
  rw [inForce_cons]
  constructor
  · rintro (⟨h, -⟩ | ⟨later, earlier, rfl, hlevel⟩)
    · cases h
    · obtain ⟨n, hn, hk⟩ := level_opened.1 hlevel
      exact ⟨n, ⟨later, earlier, rfl, hn⟩, hk⟩
  · rintro ⟨n, ⟨later, earlier, rfl, hn⟩, hk⟩
    exact .inr ⟨later, earlier, rfl, level_opened.2 ⟨n, hn, hk⟩⟩

theorem inForce_closed : InForce (.closed :: past) name l k ↔ InForce past name l (k + 1) := by
  rw [inForce_cons]
  constructor
  · rintro (⟨h, -⟩ | ⟨later, earlier, rfl, hlevel⟩)
    · cases h
    · exact ⟨later, earlier, rfl, level_closed.1 hlevel⟩
  · rintro ⟨later, earlier, rfl, hlevel⟩
    exact .inr ⟨later, earlier, rfl, level_closed.2 hlevel⟩

theorem inForce_declared : InForce (.declared name' l' :: past) name l k ↔
    (name' = name ∧ l' = l ∧ k = 0) ∨ InForce past name l k := by
  rw [inForce_cons, Event.declared.injEq, and_assoc]
  rfl

theorem inForce_refused : InForce (.refused name' :: past) name l k ↔ InForce past name l k := by
  apply inForce_cons.trans
  apply or_iff_right
  rintro ⟨h, -⟩
  cases h

theorem inForce_reserved : InForce (.reserved :: past) name l k ↔ InForce past name l k := by
  apply inForce_cons.trans
  apply or_iff_right
  rintro ⟨h, -⟩
  cases h

theorem InForce.le_level {body : List Event} {m : ℕ} (h : InForce body name l k)
    (hbody : level body = some m) : k ≤ m := by
  obtain ⟨later, earlier, rfl, hlater⟩ := h
  obtain ⟨n, -, rfl⟩ := (level_append hlater).1 hbody
  exact Nat.le_add_right _ _

/-- What is declared before some events goes on being in force, farther out. -/
theorem inForce_append {body : List Event} {m : ℕ} (hbody : level body = some m) :
    InForce (body ++ past) name l k ↔
      InForce body name l k ∨ ∃ n, InForce past name l n ∧ m + n = k := by
  constructor
  · rintro ⟨later, earlier, h, hlater⟩
    rcases List.append_eq_append_iff.1 h with ⟨rest, rfl, hpast⟩ | ⟨rest, rfl, hearlier⟩
    · obtain ⟨n, hn, hk⟩ := (level_append hbody).1 hlater
      exact .inr ⟨n, ⟨rest, earlier, hpast, hn⟩, hk⟩
    · cases rest with
      | nil =>
          rw [List.append_nil] at hbody
          obtain rfl := Option.some.inj (hbody.symm.trans hlater)
          exact .inr ⟨0, ⟨[], earlier, hearlier.symm, rfl⟩, rfl⟩
      | cons e rest =>
          obtain ⟨rfl, rfl⟩ := List.cons.inj hearlier
          exact .inl ⟨later, rest, rfl, hlater⟩
  · rintro (⟨later, earlier, rfl, hlater⟩ | ⟨n, ⟨later, earlier, rfl, hlater⟩, rfl⟩)
    · exact ⟨later, earlier ++ past, by simp, hlater⟩
    · exact ⟨body ++ later, earlier, by simp, (level_append hbody).2 ⟨n, hlater, rfl⟩⟩

/-- A scope that is opened and closed again leaves the declarations from before in force. -/
theorem inForce_closed_append {body : List Event} (hbody : level body = some 0) :
    InForce (.closed :: (body ++ .opened :: past)) name l k ↔ InForce past name l k := by
  rw [inForce_closed, inForce_append hbody]
  constructor
  · rintro (h | ⟨n, h, hk⟩)
    · exact absurd (h.le_level hbody) (Nat.not_succ_le_zero k)
    · obtain ⟨m, hm, rfl⟩ := inForce_opened.1 h
      obtain rfl : m = k := by omega
      exact hm
  · intro h
    exact .inr ⟨k + 1, inForce_opened.2 ⟨k, h, rfl⟩, Nat.zero_add _⟩

end

/-! ### Visible names -/

section

variable {v : Variables} {name : String} {l : Local}

theorem mem_entries_iff : (name, l) ∈ v.entries ↔
    ∃ (k : ℕ) (frame : List (String × Local)), v.scopes.frames[k]? = some frame ∧
      (name, l) ∈ frame := by
  rw [Variables.entries, List.mem_flatten]
  constructor
  · rintro ⟨frame, hframe, hl⟩
    obtain ⟨k, hk⟩ := List.getElem?_of_mem hframe
    exact ⟨k, frame, hk, hl⟩
  · rintro ⟨k, frame, hk, hl⟩
    exact ⟨frame, List.mem_of_getElem? hk, hl⟩

/-- Closing a scope takes the innermost variables away. -/
theorem exists_entries_eq_append (hv : v.scopes.frames ≠ []) :
    ∃ inner, v.entries = inner ++ v.closed.entries := by
  obtain ⟨inner, outer, hframes⟩ := List.exists_cons_of_ne_nil hv
  refine ⟨inner, ?_⟩
  rw [Variables.entries, Variables.entries, Variables.closed, Scriptlet.Scopes.pop, hframes]
  rfl

/-- A name that is found nowhere is in no scope. -/
theorem not_mem_names (h : v.look name = none) : name ∉ v.entries.map Prod.fst := by
  intro hmem
  obtain ⟨⟨_, l⟩, hl, rfl⟩ := List.mem_map.1 hmem
  obtain ⟨frame, hframe, hl⟩ := List.mem_flatten.1 hl
  have hnone := List.findSome?_eq_none_iff.1 h frame hframe
  rw [List.lookup_eq_none_iff] at hnone
  simpa using hnone _ hl

theorem look_eq_some_iff (hnames : (v.entries.map Prod.fst).Nodup) :
    v.look name = some l ↔ (name, l) ∈ v.entries := by
  constructor
  · exact mem_entries_of_look
  · intro hl
    cases hlook : v.look name with
    | none => exact absurd (List.mem_map_of_mem hl) (not_mem_names hlook)
    | some l' =>
        have hsame := List.inj_on_of_nodup_map hnames hl (mem_entries_of_look hlook) rfl
        rw [(Prod.mk.inj hsame).2]

end

/-! ### Declarations -/

section

variable (v : Variables) (name : String) (t : DataType)

/-- A declaration succeeds, or it leaves the scopes as they are. -/
theorem declares_or_refused :
    (v.declaration name t = .declared name ⟨v.draft.locals, t⟩ ∧
        Declares v name t (v.declaring name t)) ∨
      (∃ r, v.scopes.declare name ⟨v.draft.locals, t⟩ = .error r) ∧
        v.declaration name t = .refused name ∧ (v.declaring name t).scopes = v.scopes := by
  unfold Variables.declaration Variables.declaring
  cases h : v.scopes.declare name ⟨v.draft.locals, t⟩ with
  | ok scopes => exact .inl ⟨rfl, h, rfl⟩
  | error r => exact .inr ⟨⟨r, rfl⟩, rfl, rfl⟩

/-- The checker declares a variable and reports why it cannot. -/
theorem declare_eq (ctx : Context) (ident : Tree.Ident) :
    declare ident t ctx v =
      ⟨(v.draft.locals, v.declaring ident.name t), v.complaints ident t⟩ := by
  have hreserve : (ReaderT.run reserve ctx).run v =
      pure (v.draft.locals, ⟨v.scopes, (Code.Drafting.reserve.run v.draft).2⟩) := rfl
  have hget (w : Variables) : (ReaderT.run (get : Check Variables) ctx).run w = pure (w, w) := rfl
  change (ReaderT.run (declare ident t) ctx).run v = _
  simp only [declare, ReaderT.run_bind, StateT.run_bind, hreserve, hget, pure_bind,
    Variables.declaring, Variables.complaints]
  cases v.scopes.declare ident.name ⟨v.draft.locals, t⟩ <;> rfl

@[simp] theorem takesSlot_declaration : (v.declaration name t).takesSlot = true := by
  unfold Variables.declaration
  cases v.scopes.declare name ⟨v.draft.locals, t⟩ <;> rfl

end

section

variable {frame inner : List (String × Local)} {outer : List (List (String × Local))}
  {name : String} {l : Local} {s : Scriptlet.Scopes}

theorem binds_iff : Scriptlet.Scopes.binds frame name = true ↔ ∃ l, (name, l) ∈ frame := by
  rw [Scriptlet.Scopes.binds, List.lookup_isSome_iff]
  constructor
  · rintro ⟨⟨_, l⟩, hl, heq⟩
    obtain rfl := eq_of_beq heq
    exact ⟨l, hl⟩
  · rintro ⟨l, hl⟩
    exact ⟨(name, l), hl, beq_self_eq_true name⟩

theorem isSome_lookup? : (s.lookup? name).isSome = s.frames.any (Scriptlet.Scopes.binds · name) := by
  rw [Bool.eq_iff_iff, Scriptlet.Scopes.lookup?, List.findSome?_isSome_iff, List.any_eq_true]
  rfl

/-- A name that the innermost scope does not have is refused if another scope has it. -/
theorem declare_eq_ite (hs : s.frames = inner :: outer) : s.declare name l =
    if Scriptlet.Scopes.binds inner name then .error .sameScope
    else if (s.lookup? name).isSome then .error .enclosingScope
    else .ok ⟨((name, l) :: inner) :: outer⟩ := by
  rw [isSome_lookup?, Scriptlet.Scopes.declare, hs, List.any_cons]
  dsimp only
  split
  · rfl
  · next hinner => rw [Bool.eq_false_iff.2 hinner, Bool.false_or]

end

/-! ### Invariants -/

namespace Reached

variable {history past later earlier later' earlier' : List Event} {v : Variables}
  {name : String} {l l' : Local} {k k' : ℕ}

/-- The scopes hold just the declarations that are in force, each of them in its place. -/
theorem inForce_iff (h : Reached history v) : InForce history name l k ↔
    ∃ frame, v.scopes.frames[k]? = some frame ∧ (name, l) ∈ frame := by
  induction h generalizing k with
  | start =>
      constructor
      · intro h
        exact absurd h not_inForce_nil
      · rintro ⟨frame, hframe, -⟩
        cases hframe
  | opened _ ih =>
      rw [inForce_opened]
      cases k with
      | zero =>
          constructor
          · rintro ⟨n, -, hn⟩
            cases hn
          · rintro ⟨frame, hframe, hl⟩
            obtain rfl := Option.some.inj hframe
            cases hl
      | succ k =>
          constructor
          · rintro ⟨n, hn, hk⟩
            obtain rfl := Nat.succ.inj hk
            exact ih.1 hn
          · intro hframe
            exact ⟨k, ih.2 hframe, rfl⟩
  | closed _ hv ih =>
      obtain ⟨inner, outer, hframes⟩ := List.exists_cons_of_ne_nil hv
      rw [inForce_closed, ih]
      simp only [Variables.closed, Scriptlet.Scopes.pop, hframes, List.tail_cons,
        List.getElem?_cons_succ]
  | @declares past v name' t _ hv ih =>
      obtain ⟨hevent, hdeclares⟩ | ⟨-, hevent, hscopes⟩ := declares_or_refused v name' t
      · obtain ⟨inner, outer, hframes⟩ := List.exists_cons_of_ne_nil hv
        rw [hevent, inForce_declared, ih, (frames_of_declare hframes hdeclares.scopes).1, hframes]
        cases k with
        | zero =>
            simp only [List.getElem?_cons_zero, Option.some.injEq, exists_eq_left', List.mem_cons,
              Prod.mk.injEq, and_true, @eq_comm _ name, @eq_comm _ l]
        | succ k =>
            apply or_iff_right
            rintro ⟨-, -, hk⟩
            cases hk
      · rw [hevent, inForce_refused, ih, hscopes]
  | reserves _ ih => exact inForce_reserved.trans ih
  | writes _ _ ih => exact ih

/-- No name is declared twice among the open scopes. -/
theorem names_nodup (h : Reached history v) : (v.entries.map Prod.fst).Nodup := by
  induction h with
  | start => exact List.nodup_nil
  | opened _ ih => exact ih
  | @closed past v _ hv ih =>
      obtain ⟨inner, hentries⟩ := exists_entries_eq_append hv
      rw [hentries, List.map_append] at ih
      exact ih.of_append_right
  | declares name t _ hv ih =>
      obtain ⟨hevent, hdeclares⟩ | ⟨-, hevent, hscopes⟩ := declares_or_refused _ name t
      · rw [hdeclares.entries hv, List.map_cons, List.nodup_cons]
        exact ⟨not_mem_names (hdeclares.fresh hv), ih⟩
      · rwa [Variables.entries, hscopes]
  | reserves _ ih => exact ih
  | writes _ _ ih => exact ih

theorem look_iff (h : Reached history v) : v.look name = some l ↔ ∃ k, InForce history name l k := by
  rw [look_eq_some_iff h.names_nodup, mem_entries_iff]
  exact exists_congr fun k => h.inForce_iff.symm

/-- Every slot but the greatest one is reserved once. -/
theorem toNat_locals (h : Reached history v) (hroom : history.countP Event.takesSlot ≤ 65535) :
    v.draft.locals.toNat = history.countP Event.takesSlot := by
  induction h with
  | start hd =>
      rw [hd]
      rfl
  | opened _ ih => exact ih hroom
  | closed _ _ ih => exact ih hroom
  | declares name t _ _ ih =>
      rw [List.countP_cons_of_pos (takesSlot_declaration ..)] at hroom ⊢
      have hlocals := ih (Nat.le_of_succ_le hroom)
      rw [← hlocals]
      apply Code.Drafting.toNat_locals_reserve
      omega
  | reserves _ ih =>
      rw [List.countP_cons_of_pos rfl] at hroom ⊢
      have hlocals := ih (Nat.le_of_succ_le hroom)
      rw [← hlocals]
      apply Code.Drafting.toNat_locals_reserve
      omega
  | writes _ hd ih =>
      rw [hd]
      exact ih hroom

/-- As long as slots are left, the visible variables have slots of their own, which were reserved
before. -/
theorem slots_apart (h : Reached history v) (hroom : history.countP Event.takesSlot ≤ 65535) :
    (v.entries.Pairwise fun a b => a.2.slot ≠ b.2.slot) ∧
      ∀ e ∈ v.entries, e.2.slot < v.draft.locals := by
  induction h with
  | start => exact ⟨.nil, List.forall_mem_nil _⟩
  | opened _ ih => exact ih hroom
  | @closed past v _ hv ih =>
      obtain ⟨hseparate, hbelow⟩ := ih hroom
      obtain ⟨inner, hentries⟩ := exists_entries_eq_append hv
      rw [hentries] at hseparate hbelow
      exact ⟨(List.pairwise_append.1 hseparate).2.1,
        fun e he => hbelow e (List.mem_append_right _ he)⟩
  | @declares past v name t hpast hv ih =>
      rw [List.countP_cons_of_pos (takesSlot_declaration ..)] at hroom
      obtain ⟨hseparate, hbelow⟩ := ih (Nat.le_of_succ_le hroom)
      obtain ⟨-, hdeclares⟩ | ⟨-, -, hscopes⟩ := declares_or_refused v name t
      · have hslot : v.draft.locals ≠ 0xFFFF := by
          apply ne_top_of_toNat_lt
          rw [hpast.toNat_locals (Nat.le_of_succ_le hroom)]
          exact hroom
        have horderly := hdeclares.orderly ⟨hv, hseparate, hbelow⟩ hslot
        exact ⟨horderly.separate, horderly.below⟩
      · rw [Variables.entries, hscopes]
        refine ⟨hseparate, fun e he => UInt16.lt_of_lt_of_le (hbelow e he) ?_⟩
        exact Code.Drafting.le_locals_reserve _
  | reserves _ ih =>
      rw [List.countP_cons_of_pos rfl] at hroom
      obtain ⟨hseparate, hbelow⟩ := ih (Nat.le_of_succ_le hroom)
      refine ⟨hseparate, fun e he => UInt16.lt_of_lt_of_le (hbelow e he) ?_⟩
      exact Code.Drafting.le_locals_reserve _
  | writes _ hd ih =>
      rw [hd]
      exact ih hroom

theorem exists_tail {e : Event} (h : Reached history v) (heq : history = e :: past) :
    ∃ u, Reached past u := by
  induction h with
  | start => cases heq
  | opened hpast | closed hpast | declares _ _ hpast | reserves hpast =>
      obtain ⟨-, rfl⟩ := List.cons.inj heq
      exact ⟨_, hpast⟩
  | writes _ _ ih => exact ih heq

/-- Every moment of the past was reached. -/
theorem exists_past (h : Reached (later ++ earlier) v) : ∃ u, Reached earlier u := by
  induction later generalizing v with
  | nil => exact ⟨v, h⟩
  | cons e later ih =>
      obtain ⟨u, hu⟩ := h.exists_tail rfl
      exact ih hu

/-- A name is declared only while it is not in force. -/
theorem not_inForce (h : Reached history v) (heq : history = .declared name l :: past) :
    ¬InForce past name l' k := by
  induction h with
  | start => cases heq
  | opened => cases heq
  | closed => cases heq
  | @declares past v name t hpast hv =>
      obtain ⟨hevent, hdeclares⟩ | ⟨-, hevent, -⟩ := declares_or_refused v name t
      · rw [hevent] at heq
        cases heq
        intro hforce
        have hlook := hpast.look_iff.2 ⟨k, hforce⟩
        rw [hdeclares.fresh hv] at hlook
        cases hlook
      · rw [hevent] at heq
        cases heq
  | reserves => cases heq
  | writes _ _ ih => exact ih heq

/-- The declarations of a name that are in force are one and the same. -/
theorem later_eq (h : Reached history v)
    (hfirst : history = later ++ .declared name l :: earlier) (hlater : level later = some k)
    (hsecond : history = later' ++ .declared name l' :: earlier')
    (hlater' : level later' = some k') : later = later' := by
  -- The declaration before would be in force at the later one.
  have apart {later earlier later' earlier' : List Event} {l l' : Local} {k : ℕ} {e : Event}
      (hfirst : history = (later' ++ e :: later) ++ .declared name l :: earlier)
      (hsecond : history = later' ++ .declared name l' :: earlier')
      (hlater : level (later' ++ e :: later) = some k) : False := by
    obtain ⟨u, hu⟩ := (hsecond ▸ h).exists_past
    rw [hfirst, List.append_assoc, List.append_cancel_left_eq, List.cons_append] at hsecond
    obtain ⟨rfl, rfl⟩ := List.cons.inj hsecond
    obtain ⟨n, hn⟩ := exists_level_of_append hlater
    exact hu.not_inForce rfl ⟨later, earlier, rfl, hn⟩
  rcases List.append_eq_append_iff.1 (hfirst.symm.trans hsecond) with
    ⟨rest, rfl, -⟩ | ⟨rest, rfl, -⟩
  · cases rest with
    | nil => exact (List.append_nil _).symm
    | cons e rest => exact (apart hsecond hfirst hlater').elim
  · cases rest with
    | nil => exact List.append_nil _
    | cons e rest => exact (apart hfirst hsecond hlater).elim

end Reached

/-! ### Resolution -/

/-- Names mean what they do in the nested scopes of a block language. -/
structure Lexical (history : List Event) (v : Variables) : Prop where
  /-- No name is declared in two open scopes. -/
  single {i j : ℕ} {inner outer : List (String × Local)} {name : String} :
    v.scopes.frames[i]? = some inner → v.scopes.frames[j]? = some outer →
      Scriptlet.Scopes.binds inner name → Scriptlet.Scopes.binds outer name → i = j
  /-- A name means the declaration of it that is in force. -/
  found {name : String} {l : Local} :
    v.scopes.lookup? name = some l ↔ ∃ k, InForce history name l k
  /-- There is at most one such declaration. -/
  unique {name : String} {l l' : Local} {k k' : ℕ} {later earlier later' earlier' : List Event} :
    history = later ++ .declared name l :: earlier → level later = some k →
      history = later' ++ .declared name l' :: earlier' → level later' = some k' →
        later = later'
  /-- A declaration fails if the name is visible, for one of two reasons. -/
  refused {inner : List (String × Local)} {outer : List (List (String × Local))} {name : String}
    {l : Local} : v.scopes.frames = inner :: outer →
      ((∃ r, v.scopes.declare name l = .error r) ↔ v.scopes.lookup? name ≠ none) ∧
      (v.scopes.declare name l = .error .sameScope ↔ Scriptlet.Scopes.binds inner name) ∧
      (v.scopes.declare name l = .error .enclosingScope ↔
        v.scopes.lookup? name ≠ none ∧ ¬Scriptlet.Scopes.binds inner name)
  /-- The checker declares a name and reports why it cannot. -/
  checked {ctx : Context} {name : Tree.Ident} {t : DataType} :
    declare name t ctx v = ⟨(v.draft.locals, v.declaring name.name t), v.complaints name t⟩
  /-- A declaration that fails leaves every name its meaning. -/
  kept {name : String} {t : DataType} {r : Redeclaration} :
    v.scopes.declare name ⟨v.draft.locals, t⟩ = .error r →
      (v.declaring name t).scopes.lookup? = v.scopes.lookup?
  /-- Closing a scope gives every name the meaning from before the scope was opened. -/
  restored {body past : List Event} : history = .closed :: (body ++ .opened :: past) →
    level body = some 0 → (∃ u, Reached past u) ∧
      ∀ u, Reached past u → v.scopes.lookup? = u.scopes.lookup?
  /-- As long as slots are left, different names have different slots. -/
  apart {name name' : String} {l l' : Local} : history.countP Event.takesSlot ≤ 65535 →
    v.scopes.lookup? name = some l → v.scopes.lookup? name' = some l' → name ≠ name' →
      l.slot ≠ l'.slot

/-- Whatever happens to the scopes, they resolve names lexically. -/
theorem lexical_of_reached {history : List Event} {v : Variables} (h : Reached history v) :
    Lexical history v where
  single {i j inner outer name} hinner houter hin hout := by
    obtain ⟨l, hl⟩ := binds_iff.1 hin
    obtain ⟨l', hl'⟩ := binds_iff.1 hout
    obtain ⟨later, earlier, hfirst, hi⟩ := h.inForce_iff.2 ⟨inner, hinner, hl⟩
    obtain ⟨later', earlier', hsecond, hj⟩ := h.inForce_iff.2 ⟨outer, houter, hl'⟩
    obtain rfl := h.later_eq hfirst hi hsecond hj
    exact Option.some.inj (hi.symm.trans hj)
  found := h.look_iff
  unique := h.later_eq
  refused {inner outer name l} hframes := by
    have hvisible : (v.scopes.lookup? name).isSome = true ↔ v.scopes.lookup? name ≠ none :=
      Option.isSome_iff_ne_none
    have hbinds : Scriptlet.Scopes.binds inner name = true → (v.scopes.lookup? name).isSome := by
      intro hbound
      rw [isSome_lookup?, hframes, List.any_cons, hbound, Bool.true_or]
    rw [declare_eq_ite hframes, ← hvisible]
    by_cases hbound : Scriptlet.Scopes.binds inner name = true
    · simp [hbound, hbinds hbound]
    · by_cases hvis : (v.scopes.lookup? name).isSome = true
      · simp [hbound, hvis]
      · simp [hbound, hvis]
  checked {ctx name t} := declare_eq v t ctx name
  kept {name t r} hrefused := by
    rw [Variables.declaring, hrefused]
    rfl
  restored {body past} heq hbody := by
    subst heq
    have hpast : Reached ((.closed :: (body ++ [.opened])) ++ past) v := by simpa using h
    refine ⟨hpast.exists_past, fun u hu => ?_⟩
    funext name
    apply Option.ext
    intro l
    refine h.look_iff.trans (Iff.trans ?_ hu.look_iff.symm)
    exact exists_congr fun k => inForce_closed_append hbody
  apart {name name' l l'} hroom hl hl' hne := by
    obtain ⟨hseparate, -⟩ := h.slots_apart hroom
    intro hslot
    exact hne (eq_of_slot_eq hseparate hl hl' hslot)

/-- An inner block that declares a name of its own, is refused the name that the outer block has
declared, and is closed again. -/
theorem lexical_refused :
    Lexical
      [.closed, .refused "x", .declared "y" ⟨1, .bool⟩, .opened, .declared "x" ⟨0, .int⟩, .opened]
      (((((⟨.empty, .empty⟩ : Variables).opened.declaring "x" .int).opened.declaring "y"
        .bool).declaring "x" .int).closed) := by
  have houter : Reached [.opened] (⟨.empty, .empty⟩ : Variables).opened := .opened (.start rfl)
  have hinner := (houter.declares "x" .int (List.cons_ne_nil _ _)).opened
  have hy := hinner.declares "y" .bool (List.cons_ne_nil _ _)
  have hx := hy.declares "x" .int (List.cons_ne_nil _ _)
  exact lexical_of_reached (hx.closed (List.cons_ne_nil _ _))

end Scriptlet.Typing
