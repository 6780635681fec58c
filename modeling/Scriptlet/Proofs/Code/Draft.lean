import Scriptlet.Code.Draft

namespace Scriptlet.Code

/-!
# Growing drafts

What the operations on a draft do to the places of its code. Writing keeps every place that is
already there, and aiming changes no place but its own.
-/

theorem Instr.withTarget_withTarget (i : Instr) (t u : UInt32) :
    (i.withTarget u).withTarget t = i.withTarget t := by
  cases i <;> rfl

namespace Draft

/-- The draft with one more instruction. -/
def push (d : Draft) (i : Instr) : Draft :=
  { d with code := d.code.push i }

/-- The draft with another target in the jump at a place. -/
def aim (d : Draft) (place target : Nat) : Draft :=
  { d with code := d.code.modify place (Instr.withTarget (placeOperand target)) }

/-- The draft with another target in the jumps at several places. -/
def aimAll (d : Draft) (target : Nat) : List Nat → Draft
  | [] => d
  | place :: places => (d.aim place target).aimAll target places

/-- The draft with a literal in its pool, and the place of the literal. -/
def withLiteral (d : Draft) (l : Literal) : Draft × Nat :=
  match d.literals.findIdx? (· == l) with
  | some index => (d, index)
  | none => ({ d with literals := d.literals.push l }, d.literals.size)

section

variable (d : Draft) (i : Instr) (place target k : Nat) (places : List Nat)

@[simp] theorem size_push : (d.push i).code.size = d.code.size + 1 := by
  simp [push]

@[simp] theorem literals_push : (d.push i).literals = d.literals := rfl

@[simp] theorem locals_push : (d.push i).locals = d.locals := rfl

@[simp] theorem code_push :
    (d.push i).code[k]? = if k = d.code.size then some i else d.code[k]? := by
  simp [push, Array.getElem?_push]

@[simp] theorem size_aim : (d.aim place target).code.size = d.code.size := by
  simp [aim]

@[simp] theorem literals_aim : (d.aim place target).literals = d.literals := rfl

@[simp] theorem locals_aim : (d.aim place target).locals = d.locals := rfl

@[simp] theorem code_aim :
    (d.aim place target).code[k]? =
      if k = place then d.code[k]?.map (Instr.withTarget (placeOperand target))
      else d.code[k]? := by
  simp only [aim, Array.getElem?_modify, eq_comm]

@[simp] theorem size_aimAll : (d.aimAll target places).code.size = d.code.size := by
  induction places generalizing d with
  | nil => rfl
  | cons place places ih => rw [aimAll, ih, size_aim]

@[simp] theorem literals_aimAll : (d.aimAll target places).literals = d.literals := by
  induction places generalizing d with
  | nil => rfl
  | cons place places ih => rw [aimAll, ih, literals_aim]

@[simp] theorem locals_aimAll : (d.aimAll target places).locals = d.locals := by
  induction places generalizing d with
  | nil => rfl
  | cons place places ih => rw [aimAll, ih, locals_aim]

@[simp] theorem code_aimAll :
    (d.aimAll target places).code[k]? =
      if k ∈ places then d.code[k]?.map (Instr.withTarget (placeOperand target))
      else d.code[k]? := by
  induction places generalizing d with
  | nil => rfl
  | cons place places ih =>
      rw [aimAll, ih, code_aim]
      by_cases hk : k = place
      · subst hk
        cases d.code[k]? <;> simp [Instr.withTarget_withTarget]
      · simp [hk]

end

/-- A literal gets a place in the pool, which keeps the places of the others. -/
theorem withLiteral_spec (d : Draft) (l : Literal) :
    (d.withLiteral l).1.code = d.code ∧ (d.withLiteral l).1.locals = d.locals ∧
      (d.withLiteral l).1.literals[(d.withLiteral l).2]? = some l ∧
      (∀ (k : Nat) m, d.literals[k]? = some m → (d.withLiteral l).1.literals[k]? = some m) ∧
      (d.withLiteral l).1.literals.size ≤ d.literals.size + 1 := by
  unfold withLiteral
  cases hi : d.literals.findIdx? (· == l) with
  | none =>
      refine ⟨rfl, rfl, by simp, fun k m hk => ?_, by simp⟩
      obtain ⟨hlt, heq⟩ := Array.getElem?_eq_some_iff.1 hk
      simp [Array.getElem?_push, Nat.ne_of_lt hlt, hk]
  | some n =>
      refine ⟨rfl, rfl, ?_, fun k m hk => hk, Nat.le_succ _⟩
      obtain ⟨hlt, heq, -⟩ := Array.findIdx?_eq_some_iff_getElem.1 hi
      simp only [beq_iff_eq] at heq
      simp [hlt, heq]

end Draft

/-- A draft that goes on with another one: what was written before stays in its place, and no
literal comes without an instruction. -/
structure Extends (d e : Draft) : Prop where
  size : d.code.size ≤ e.code.size
  code : ∀ k < d.code.size, e.code[k]? = d.code[k]?
  literals : ∀ (k : Nat) l, d.literals[k]? = some l → e.literals[k]? = some l
  room : e.literals.size + d.code.size ≤ d.literals.size + e.code.size
  locals : e.locals = d.locals

namespace Extends

variable {d e f : Draft}

theorem refl (d : Draft) : Extends d d :=
  ⟨Nat.le_refl _, fun _ _ => rfl, fun _ _ h => h, Nat.le_refl _, rfl⟩

theorem trans (h : Extends d e) (h' : Extends e f) : Extends d f where
  size := Nat.le_trans h.size h'.size
  code k hk := (h'.code k (Nat.lt_of_lt_of_le hk h.size)).trans (h.code k hk)
  literals k l hk := h'.literals k l (h.literals k l hk)
  room := by
    have := h.room
    have := h'.room
    omega
  locals := h'.locals.trans h.locals

theorem push (h : Extends d e) (i : Instr) : Extends d (e.push i) where
  size := by
    rw [Draft.size_push]
    exact Nat.le_succ_of_le h.size
  code k hk := by
    rw [Draft.code_push, if_neg (Nat.ne_of_lt (Nat.lt_of_lt_of_le hk h.size))]
    exact h.code k hk
  literals := h.literals
  room := by
    rw [Draft.size_push, Draft.literals_push]
    have := h.room
    omega
  locals := h.locals

theorem aimAll (h : Extends d e) {places : List Nat} (hp : ∀ k ∈ places, d.code.size ≤ k)
    (target : Nat) : Extends d (e.aimAll target places) where
  size := by
    rw [Draft.size_aimAll]
    exact h.size
  code k hk := by
    rw [Draft.code_aimAll, if_neg fun hmem => by have := hp k hmem; omega]
    exact h.code k hk
  literals := by
    rw [Draft.literals_aimAll]
    exact h.literals
  room := by
    rw [Draft.size_aimAll, Draft.literals_aimAll]
    exact h.room
  locals := by
    rw [Draft.locals_aimAll]
    exact h.locals

theorem addLiteral (d : Draft) (l : Literal) (i : Instr) :
    Extends d ((d.withLiteral l).1.push i) := by
  obtain ⟨hcode, hlocals, hget, hliterals, hsize⟩ := d.withLiteral_spec l
  refine ⟨?_, fun k hk => ?_, ?_, ?_, hlocals⟩
  · rw [Draft.size_push, hcode]
    exact Nat.le_succ _
  · rw [Draft.code_push, hcode, if_neg (Nat.ne_of_lt hk)]
  · rw [Draft.literals_push]
    exact hliterals
  · rw [Draft.size_push, hcode, Draft.literals_push]
    omega

end Extends

/-- An operand says a place as long as the place is no greater than all operands. -/
theorem toNat_placeOperand {n : Nat} (h : n ≤ placeholder.toNat) : (placeOperand n).toNat = n := by
  have hbound : placeholder.toNat = 4294967295 := rfl
  rw [placeOperand, Nat.min_eq_left h, UInt32.toNat_ofNat']
  exact Nat.mod_eq_of_lt (by omega)

namespace Drafting

variable {α β : Type} (d : Draft)

@[simp] theorem run_bind (x : Drafting α) (f : α → Drafting β) :
    (x >>= f).run d = (f (x.run d).1).run (x.run d).2 := rfl

@[simp] theorem run_pure (a : α) : (pure a : Drafting α).run d = (a, d) := rfl

theorem run_get_bind (f : Draft → Drafting β) : (get >>= f).run d = (f d).run d := rfl

theorem run_add_push (i : Instr) : (add i).run d = ((), d.push i) := rfl

theorem run_jump_push (make : UInt32 → Instr) :
    (jump make).run d = (d.code.size, d.push (make placeholder)) := rfl

theorem run_aim (place target : Nat) : (aim place target).run d = ((), d.aim place target) := by
  simp only [aim, run_get_bind]
  cases hp : d.code[place]? with
  | none =>
      have hcode : d.code.modify place (Instr.withTarget (placeOperand target)) = d.code := by
        refine Array.ext_getElem? fun k => ?_
        rw [Array.getElem?_modify]
        split
        · next hk => simp [← hk, hp]
        · rfl
      simp only [Draft.aim, hcode]
      rfl
  | some i =>
      have hcode : d.code.modify place (Instr.withTarget (placeOperand target)) =
          d.code.setIfInBounds place (i.withTarget (placeOperand target)) := by
        refine Array.ext_getElem? fun k => ?_
        rw [Array.getElem?_modify, Array.getElem?_setIfInBounds]
        split
        · next hk =>
            subst hk
            obtain ⟨hlt, heq⟩ := Array.getElem?_eq_some_iff.1 hp
            simp [hlt, heq]
        · rfl
      simp [Draft.aim, hcode]

theorem run_land (place : Nat) : (land place).run d = ((), d.aim place d.code.size) :=
  run_aim d place d.code.size

theorem run_literal (l : Literal) :
    (literal l).run d =
      (d.code.size, (d.withLiteral l).1.push (.const (placeOperand (d.withLiteral l).2))) := by
  simp only [literal, run_get_bind, Draft.withLiteral]
  cases hi : d.literals.findIdx? (· == l) <;> rfl

theorem run_addLiteral (l : Literal) :
    (addLiteral l).run d =
      ((), (d.withLiteral l).1.push (.const (placeOperand (d.withLiteral l).2))) :=
  congrArg (fun r : Nat × Draft => ((), r.2)) (run_literal d l)

/-- Reserving counts the slots up to the greatest one. -/
theorem toNat_locals_reserve (h : d.locals.toNat < 65535) :
    (reserve.run d).2.locals.toNat = d.locals.toNat + 1 := by
  have hslot : d.locals ≠ 0xFFFF := by
    intro heq
    rw [heq] at h
    exact absurd h (by decide)
  have hlocals : (reserve.run d).2.locals = d.locals + 1 := if_neg hslot
  have hone : (1 : UInt16).toNat = 1 := rfl
  rw [hlocals, UInt16.toNat_add]
  omega

theorem le_locals_reserve : d.locals ≤ (reserve.run d).2.locals := by
  by_cases hslot : d.locals.toNat < 65535
  · rw [UInt16.le_iff_toNat_le, toNat_locals_reserve d hslot]
    exact Nat.le_succ _
  · have htop : d.locals = 0xFFFF := by
      apply UInt16.toNat_inj.1
      have hmost := d.locals.toNat_lt
      have hall : (0xFFFF : UInt16).toNat = 65535 := rfl
      omega
    have hlocals : (reserve.run d).2.locals = d.locals := if_pos htop
    rw [hlocals]
    exact UInt16.le_refl _

theorem run_aimAll (target : Nat) (places : List Nat) :
    (places.forM (aim · target)).run d = ((), d.aimAll target places) := by
  induction places generalizing d with
  | nil => rfl
  | cons place places ih =>
      change (places.forM (aim · target)).run ((aim place target).run d).2 = _
      rw [run_aim, ih]
      rfl

theorem run_landAll (places : List Nat) :
    (places.forM land).run d = ((), d.aimAll d.code.size places) := by
  induction places generalizing d with
  | nil => rfl
  | cons place places ih =>
      change (places.forM land).run ((land place).run d).2 = _
      rw [run_land, ih, Draft.size_aim]
      rfl

end Drafting

end Scriptlet.Code
