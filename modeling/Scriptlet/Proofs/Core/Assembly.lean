import Scriptlet.Core.Assembly
import Scriptlet.Proofs.Code.Draft
import Scriptlet.Proofs.Core.Layout

namespace Scriptlet.Core

/-!
# The layout of assembled code

Assembling writes code in the layout of the program. A jump whose target is not known yet is a hole
in the code: what was written promises nothing about it until it is aimed.
-/

open Code (Draft Drafting Extends Instr Literal placeholder placeOperand toNat_placeOperand)
open Code.Drafting

section

variable {d e : Draft} {x : Expr}

theorem Expr.run_assemble_unary (hrun : x.assemble.run d = ((), e)) (op : UnaryOp) :
    (Expr.unary op x).assemble.run d = ((), e.push (.unary op)) := by
  rw [Expr.assemble, run_bind, hrun, run_add_push]

theorem Stmt.run_assemble_store (hrun : x.assemble.run d = ((), e)) (slot : UInt16) :
    (Stmt.store slot x).assemble.run d = (.none, e.push (.store slot)) := by
  simp only [Stmt.assemble, run_bind, hrun, run_add_push, run_pure]

end

/-- Two drafts between which every place has an operand: there are no more literals than
instructions, and not too many instructions. -/
structure Small (d e : Draft) : Prop where
  pool : d.literals.size ≤ d.code.size
  code : e.code.size ≤ placeholder.toNat

namespace Small

variable {d e f : Draft}

theorem front (h : Small d e) (hf : Extends f e) : Small d f :=
  ⟨h.pool, Nat.le_trans hf.size h.code⟩

theorem back (h : Small d e) (hf : Extends d f) : Small f e where
  pool := by
    have hroom := hf.room
    have hpool := h.pool
    omega
  code := h.code

end Small

/-- Code with a pool that has what was written between two drafts, holes apart. -/
structure Shows (code : Array Instr) (pool : Array Literal) (d e : Draft)
    (holes : List (Nat × Instr)) : Prop where
  code : ∀ k, d.code.size ≤ k → k < e.code.size → (∀ h ∈ holes, h.1 ≠ k) → code[k]? = e.code[k]?
  pool : ∀ (k : Nat) l, e.literals[k]? = some l → pool[k]? = some l

/-- A draft goes on with another one. The holes are new, and whatever code has the rest of what was
written has a property. -/
structure Writes (d e : Draft) (holes : List (Nat × Instr))
    (P : Array Instr → Array Literal → Prop) : Prop where
  grows : Extends d e
  reserved : ∀ h ∈ holes, d.code.size ≤ h.1 ∧ e.code[h.1]? = some h.2
  shows : Small d e → ∀ code pool, Shows code pool d e holes → P code pool

namespace Writes

variable {d e f : Draft} {holes holes' : List (Nat × Instr)}
  {P Q : Array Instr → Array Literal → Prop}

theorem imp (h : Writes d e holes P) (hPQ : ∀ code pool, P code pool → Q code pool) :
    Writes d e holes Q :=
  ⟨h.grows, h.reserved, fun hsmall code pool hs => hPQ code pool (h.shows hsmall code pool hs)⟩

/-- The order of the holes does not matter. -/
theorem reorder (h : Writes d e holes P) (hsame : ∀ hole, hole ∈ holes ↔ hole ∈ holes') :
    Writes d e holes' P where
  grows := h.grows
  reserved hole hmem := h.reserved hole ((hsame hole).2 hmem)
  shows hsmall code pool hs :=
    h.shows hsmall code pool
      ⟨fun k hk hk' hfree => hs.code k hk hk' fun hole hmem => hfree hole ((hsame hole).2 hmem),
        hs.pool⟩

theorem refl (d : Draft) : Writes d d [] fun _ _ => True :=
  ⟨.refl d, by simp, fun _ _ _ _ => trivial⟩

theorem hole_lt (h : Writes d e holes P) {hole : Nat × Instr} (hmem : hole ∈ holes) :
    hole.1 < e.code.size :=
  (Array.getElem?_eq_some_iff.1 (h.reserved hole hmem).2).1

/-- What is written one behind the other. -/
theorem append (h : Writes d e holes P) (h' : Writes e f holes' Q) :
    Writes d f (holes ++ holes') fun code pool => P code pool ∧ Q code pool where
  grows := h.grows.trans h'.grows
  reserved hole hmem := by
    rcases List.mem_append.1 hmem with hmem | hmem
    · have hlt := h.hole_lt hmem
      exact ⟨(h.reserved hole hmem).1, (h'.grows.code _ hlt).trans (h.reserved hole hmem).2⟩
    · exact ⟨Nat.le_trans h.grows.size (h'.reserved hole hmem).1, (h'.reserved hole hmem).2⟩
  shows hsmall code pool hs := by
    refine ⟨h.shows (hsmall.front h'.grows) code pool ⟨fun k hk hk' hfree => ?_, ?_⟩,
      h'.shows (hsmall.back h.grows) code pool ⟨fun k hk hk' hfree => ?_, hs.pool⟩⟩
    · have hsize := h'.grows.size
      rw [← h'.grows.code k hk']
      refine hs.code k hk (by omega) fun hole hmem => ?_
      rcases List.mem_append.1 hmem with hmem | hmem
      · exact hfree hole hmem
      · have := (h'.reserved hole hmem).1
        omega
    · exact fun k l hl => hs.pool k l (h'.grows.literals k l hl)
    · have hsize := h.grows.size
      refine hs.code k (by omega) hk' fun hole hmem => ?_
      rcases List.mem_append.1 hmem with hmem | hmem
      · have := h.hole_lt hmem
        omega
      · exact hfree hole hmem

/-- One instruction. -/
theorem single (d : Draft) (i : Instr) :
    Writes d (d.push i) [] fun code _ => code[d.code.size]? = some i where
  grows := (Extends.refl d).push i
  reserved := by simp
  shows _ code pool hs := by
    rw [hs.code _ (Nat.le_refl _) (by rw [Draft.size_push]; exact Nat.lt_succ_self _) (by simp),
      Draft.code_push, if_pos rfl]

/-- A jump without a target. -/
theorem hole (d : Draft) (i : Instr) :
    Writes d (d.push i) [(d.code.size, i)] fun _ _ => True where
  grows := (Extends.refl d).push i
  reserved := by
    intro hole hmem
    obtain rfl := List.mem_singleton.1 hmem
    exact ⟨Nat.le_refl _, by rw [Draft.code_push, if_pos rfl]⟩
  shows _ _ _ _ := trivial

/-- An instruction that is left out if it does nothing. -/
theorem needed (d : Draft) (i : Instr) :
    ∃ e, ((emitNeeded i).run d) = ((), e) ∧
      Writes d e [] fun code _ => Needed code d.code.size i e.code.size := by
  unfold emitNeeded
  by_cases hi : i = .nop
  · refine ⟨d, ?_, (refl d).imp fun code pool _ => by rw [hi, needed_nop]⟩
    simp only [hi, ne_eq, not_true_eq_false, if_false]
    rfl
  · refine ⟨d.push i, ?_, (single d i).imp fun code pool h => ?_⟩
    · simp only [hi, ne_eq, not_false_eq_true, if_true]
      rfl
    · rw [needed_iff hi]
      exact ⟨h, Draft.size_push d i⟩

theorem literal (d : Draft) (l : Literal) :
    Writes d ((d.withLiteral l).1.push (.const (placeOperand (d.withLiteral l).2))) []
      fun code pool => ∃ n, code[d.code.size]? = some (.const n) ∧ pool[n.toNat]? = some l where
  grows := Extends.addLiteral d l _
  reserved := by simp
  shows hsmall code pool hs := by
    obtain ⟨hcode, -, hget, -, hsize⟩ := d.withLiteral_spec l
    refine ⟨placeOperand (d.withLiteral l).2, ?_, ?_⟩
    · rw [hs.code _ (Nat.le_refl _) (by simp [hcode]) (by simp), Draft.code_push, hcode, if_pos rfl]
    · have hbound : (d.withLiteral l).2 ≤ placeholder.toNat := by
        have hlt := (Array.getElem?_eq_some_iff.1 hget).1
        have hpool := hsmall.pool
        have hfits := hsmall.code
        rw [Draft.size_push, hcode] at hfits
        omega
      rw [toNat_placeOperand hbound]
      exact hs.pool _ _ hget

/-- Aiming fills holes: those that are left are no places of aimed jumps. -/
theorem aimAll (h : Writes d e holes P) (places : List Nat) (i : Instr) (target : Nat)
    (hplaces : ∀ k ∈ places, (k, i) ∈ holes) (htarget : target ≤ e.code.size)
    (hrest : ∀ hole ∈ holes', hole ∈ holes ∧ hole.1 ∉ places) :
    Writes d (e.aimAll target places) holes' fun code pool => P code pool ∧
      ∀ k ∈ places, ∃ u, code[k]? = some (i.withTarget u) ∧ u.toNat = target where
  grows := h.grows.aimAll (fun k hk => (h.reserved _ (hplaces k hk)).1) target
  reserved hole hmem := by
    obtain ⟨hin, hout⟩ := hrest hole hmem
    refine ⟨(h.reserved hole hin).1, ?_⟩
    rw [Draft.code_aimAll, if_neg hout]
    exact (h.reserved hole hin).2
  shows hsmall code pool hs := by
    have hfits : e.code.size ≤ placeholder.toNat := by
      simpa using hsmall.code
    refine ⟨h.shows ⟨hsmall.pool, hfits⟩ code pool ⟨fun k hk hk' hfree => ?_, fun k l hl => ?_⟩,
      fun k hk => ⟨placeOperand target, ?_, toNat_placeOperand (Nat.le_trans htarget hfits)⟩⟩
    · have hout : k ∉ places := fun hmem => hfree _ (hplaces k hmem) rfl
      rw [hs.code k hk (by rwa [Draft.size_aimAll]) fun hole hmem => hfree hole (hrest hole hmem).1,
        Draft.code_aimAll, if_neg hout]
    · exact hs.pool k l (by rwa [Draft.literals_aimAll])
    · have hhole := hplaces k hk
      rw [hs.code k (h.reserved _ hhole).1 (by rw [Draft.size_aimAll]; exact h.hole_lt hhole)
          fun hole hmem heq => (hrest hole hmem).2 (heq ▸ hk),
        Draft.code_aimAll, if_pos hk, (h.reserved _ hhole).2]
      rfl

theorem aim (h : Writes d e holes P) (place : Nat) (i : Instr) (target : Nat)
    (hplace : (place, i) ∈ holes) (htarget : target ≤ e.code.size)
    (hrest : ∀ hole ∈ holes', hole ∈ holes ∧ hole.1 ≠ place) :
    Writes d (e.aim place target) holes' fun code pool => P code pool ∧
      ∃ u, code[place]? = some (i.withTarget u) ∧ u.toNat = target := by
  have hone : Writes d (e.aimAll target [place]) holes' _ :=
    h.aimAll [place] i target (by simpa using hplace) htarget (by simpa using hrest)
  refine hone.imp fun code pool hcode => ⟨hcode.1, hcode.2 place (by simp)⟩

/-- A jump that is aimed as soon as it is written. -/
theorem jumpTo (h : Writes d e holes P) (i : Instr) (target : Nat) (htarget : target ≤ e.code.size) :
    Writes d ((e.push i).aim e.code.size target) holes fun code pool => P code pool ∧
      ∃ u, code[e.code.size]? = some (i.withTarget u) ∧ u.toNat = target := by
  have hsize : target ≤ (e.push i).code.size := by
    rw [Draft.size_push]
    exact Nat.le_succ_of_le htarget
  refine ((h.append (.hole e i)).aim e.code.size i target (by simp) hsize fun hole hmem => ?_).imp
    fun code pool ⟨⟨hP, _⟩, hu⟩ => ⟨hP, hu⟩
  exact ⟨List.mem_append_left _ hmem, Nat.ne_of_lt (h.hole_lt hmem)⟩

/-- An operator that leaves its second operand out: a copy of the first one decides whether to jump
over the code that drops it and goes on. -/
theorem shortcut (h : Writes d e [] P) (i : Instr)
    (h' : Writes (((e.push .dup).push i).push .pop) f [] Q) :
    Writes d (f.aim (e.push .dup).code.size f.code.size) [] fun code pool =>
      P code pool ∧ code[e.code.size]? = some .dup ∧
        (∃ u, code[e.code.size + 1]? = some (i.withTarget u) ∧ u.toNat = f.code.size) ∧
        code[e.code.size + 1 + 1]? = some .pop ∧ Q code pool := by
  have hall := (((h.append (.single e .dup)).append (.hole _ i)).append (.single _ .pop)).append h'
  refine (hall.aim (e.push .dup).code.size i f.code.size (by simp) (Nat.le_refl _) (by simp)).imp ?_
  rintro code pool ⟨⟨⟨⟨⟨hP, hdup⟩, -⟩, hpop⟩, hQ⟩, hjump⟩
  simp only [Draft.size_push] at hpop hjump
  exact ⟨hP, hdup, hjump, hpop, hQ⟩

/-- Two branches behind a test: a jump at the end of the first one leads over the second one. -/
theorem branches {g : Draft} {R : Array Instr → Array Literal → Prop} (h : Writes d e [] P)
    (h' : Writes (e.push (.jumpIfFalse placeholder)) f holes Q)
    (h'' : Writes ((f.push (.jump placeholder)).aim e.code.size
      (f.push (.jump placeholder)).code.size) g holes' R) :
    Writes d (g.aim f.code.size g.code.size) (holes ++ holes') fun code pool =>
      P code pool ∧
        (∃ u, code[e.code.size]? = some (.jumpIfFalse u) ∧ u.toNat = f.code.size + 1) ∧
        Q code pool ∧ (∃ u, code[f.code.size]? = some (.jump u) ∧ u.toNat = g.code.size) ∧
        R code pool := by
  have hfirst : ∀ hole ∈ holes, e.code.size < hole.1 ∧ hole.1 < f.code.size := by
    intro hole hmem
    have hbelow := (h'.reserved hole hmem).1
    rw [Draft.size_push] at hbelow
    exact ⟨hbelow, h'.hole_lt hmem⟩
  have hsecond : ∀ hole ∈ holes', f.code.size < hole.1 := by
    intro hole hmem
    have hbelow := (h''.reserved hole hmem).1
    rwa [Draft.size_aim, Draft.size_push] at hbelow
  have hlt : e.code.size < f.code.size := by
    have hgrow := h'.grows.size
    rwa [Draft.size_push] at hgrow
  have hahead : ∀ hole ∈ holes ++ [(f.code.size, Instr.jump placeholder)],
      hole ∈ [] ++ [(e.code.size, Instr.jumpIfFalse placeholder)] ++ holes ++
        [(f.code.size, .jump placeholder)] ∧ hole.1 ≠ e.code.size := by
    intro hole hmem
    rcases List.mem_append.1 hmem with hmem | hmem
    · exact ⟨by simp [hmem], Nat.ne_of_gt (hfirst hole hmem).1⟩
    · obtain rfl := List.mem_singleton.1 hmem
      exact ⟨by simp, Nat.ne_of_gt hlt⟩
  have hleft : ∀ hole ∈ holes ++ holes',
      hole ∈ holes ++ [(f.code.size, Instr.jump placeholder)] ++ holes' ∧
        hole.1 ≠ f.code.size := by
    intro hole hmem
    rcases List.mem_append.1 hmem with hmem | hmem
    · exact ⟨by simp [hmem], Nat.ne_of_lt (hfirst hole hmem).2⟩
    · exact ⟨by simp [hmem], Nat.ne_of_gt (hsecond hole hmem)⟩
  have htest := (((h.append (.hole e (.jumpIfFalse placeholder))).append h').append
    (.hole f (.jump placeholder))).aim e.code.size (.jumpIfFalse placeholder) _ (by simp)
      (Nat.le_refl _) hahead
  have hall := (htest.append h'').aim f.code.size (.jump placeholder) g.code.size (by simp)
    (Nat.le_refl _) hleft
  refine hall.imp ?_
  rintro code pool ⟨⟨⟨⟨⟨⟨hP, -⟩, hQ⟩, -⟩, htest⟩, hR⟩, hend⟩
  rw [Draft.size_push] at htest
  exact ⟨hP, htest, hQ, hend, hR⟩

end Writes

/-- The code of an expression. -/
def Expr.Written (x : Expr) (d : Draft) : Prop :=
  ∃ e, x.assemble.run d = ((), e) ∧
    Writes d e [] fun code pool => x.Laid code pool d.code.size e.code.size

def ArgsWritten (xs : List Expr) (d : Draft) : Prop :=
  ∃ e, (assembleArgs xs).run d = ((), e) ∧
    Writes d e [] fun code pool => ArgsLaid code pool d.code.size xs e.code.size

section

variable {left right test yes no : Expr}

theorem Expr.written_andAlso (hl : ∀ d, left.Written d) (hr : ∀ d, right.Written d) (d : Draft) :
    (Expr.andAlso left right).Written d := by
  obtain ⟨e, hrun, he⟩ := hl d
  obtain ⟨f, hrun', hf⟩ :=
    hr (((e.push .dup).push (.jumpIfFalse placeholder)).push .pop)
  refine ⟨f.aim (e.push .dup).code.size f.code.size, ?_, (he.shortcut _ hf).imp ?_⟩
  · simp only [Expr.assemble, run_bind, hrun, hrun', run_add_push, run_jump_push, run_land]
  · rintro code pool ⟨hl, hdup, ⟨u, hjump, hu⟩, hpop, hr⟩
    simp only [Draft.size_push] at hr
    rw [← hu] at hr
    rw [Draft.size_aim, ← hu]
    exact .andAlso hl hdup hjump hpop hr

theorem Expr.written_orElse (hl : ∀ d, left.Written d) (hr : ∀ d, right.Written d) (d : Draft) :
    (Expr.orElse left right).Written d := by
  obtain ⟨e, hrun, he⟩ := hl d
  obtain ⟨f, hrun', hf⟩ :=
    hr (((e.push .dup).push (.jumpIfTrue placeholder)).push .pop)
  refine ⟨f.aim (e.push .dup).code.size f.code.size, ?_, (he.shortcut _ hf).imp ?_⟩
  · simp only [Expr.assemble, run_bind, hrun, hrun', run_add_push, run_jump_push, run_land]
  · rintro code pool ⟨hl, hdup, ⟨u, hjump, hu⟩, hpop, hr⟩
    simp only [Draft.size_push] at hr
    rw [← hu] at hr
    rw [Draft.size_aim, ← hu]
    exact .orElse hl hdup hjump hpop hr

theorem Expr.written_advance (slot : UInt16) (op : BinaryOp) (c : Conversion) (target : DataType)
    (d : Draft) : (Expr.advance slot op c target).Written d := by
  have hone := Writes.literal ((d.push (.load slot)).push .dup) (.int 1)
  have hrun := run_addLiteral ((d.push (.load slot)).push .dup) (.int 1)
  have hsize := (((d.push (.load slot)).push .dup).withLiteral_spec (.int 1)).1
  generalize ((d.push (.load slot)).push .dup).withLiteral (.int 1) = r at hone hrun hsize
  obtain ⟨f, hrun', hf⟩ :=
    Writes.needed ((r.1.push (.const (placeOperand r.2))).push (.binary op)) (c.instr target)
  refine ⟨f.push (.store slot), ?_,
    ((((((Writes.single d _).append (.single _ _)).append hone).append (.single _ _)).append
      hf).append (.single f _)).imp ?_⟩
  · simp only [Expr.assemble, run_bind, hrun, hrun', run_add_push]
  · rintro code pool ⟨⟨⟨⟨⟨hload, hdup⟩, n, hn, hl⟩, hop⟩, hc⟩, hstore⟩
    simp only [Draft.size_push, hsize] at *
    exact .advance hload hdup hn hl hop hc hstore

theorem Expr.written_choose (htest : ∀ d, test.Written d) (hyes : ∀ d, yes.Written d)
    (helse : ∀ d, no.Written d) (d : Draft) : (Expr.choose test yes no).Written d := by
  obtain ⟨e, hrun, he⟩ := htest d
  obtain ⟨f, hrun', hf⟩ := hyes (e.push (.jumpIfFalse placeholder))
  obtain ⟨g, hrun'', hg⟩ := helse
    ((f.push (.jump placeholder)).aim e.code.size (f.push (.jump placeholder)).code.size)
  refine ⟨g.aim f.code.size g.code.size, ?_, (he.branches hf hg).imp ?_⟩
  · simp only [Expr.assemble, run_bind, hrun, hrun', hrun'', run_jump_push, run_land]
  · rintro code pool ⟨ht, ⟨u, hno, hu⟩, hy, ⟨w, hend, hw⟩, hn⟩
    simp only [Draft.size_push, Draft.size_aim] at *
    rw [← hw] at hn ⊢
    exact .choose ht hno hy hend hu hn

end

mutual

theorem Expr.written : ∀ (x : Expr) (d : Draft), x.Written d
  | .literal l, d => by
      refine ⟨_, run_addLiteral d l, (Writes.literal d l).imp ?_⟩
      rintro code pool ⟨n, hn, hl⟩
      have hsize : ((d.withLiteral l).1.push (.const (placeOperand (d.withLiteral l).2))).code.size =
          d.code.size + 1 := by
        rw [Draft.size_push, (d.withLiteral_spec l).1]
      rw [hsize]
      exact .literal hn hl
  | .load slot, d => by
      refine ⟨d.push (.load slot), rfl, (Writes.single d _).imp fun code pool h => ?_⟩
      rw [Draft.size_push]
      exact .load h
  | .convert c target x, d => by
      obtain ⟨e, hrun, he⟩ := Expr.written x d
      obtain ⟨f, hrun', hf⟩ := Writes.needed e (c.instr target)
      refine ⟨f, ?_, (he.append hf).imp fun code pool ⟨hx, hc⟩ => .convert hx hc⟩
      rw [Expr.assemble, run_bind, hrun, hrun']
  | .settle c target x, d => by
      obtain ⟨e, hrun, he⟩ := Expr.written x d
      refine ⟨e.push (c.instr target), ?_,
        (he.append (.single e _)).imp fun code pool ⟨hx, hc⟩ => ?_⟩
      · rw [Expr.assemble, run_bind, hrun, run_add_push]
      · rw [Draft.size_push]
        exact .settle hx hc
  | .unary op x, d => by
      obtain ⟨e, hrun, he⟩ := Expr.written x d
      refine ⟨e.push (.unary op), Expr.run_assemble_unary hrun op,
        (he.append (.single e _)).imp fun code pool ⟨hx, hop⟩ => ?_⟩
      rw [Draft.size_push]
      exact .unary hx hop
  | .combine c left right, d => by
      obtain ⟨e, hrun, he⟩ := Expr.written left d
      obtain ⟨f, hrun', hf⟩ := Expr.written right e
      refine ⟨f.push c.instr, ?_, ((he.append hf).append (.single f _)).imp ?_⟩
      · simp only [Expr.assemble, run_bind, hrun, hrun', run_add_push]
      · rintro code pool ⟨⟨hl, hr⟩, hc⟩
        rw [Draft.size_push]
        exact .combine hl hr hc
  | .andAlso left right, d => Expr.written_andAlso (Expr.written left) (Expr.written right) d
  | .orElse left right, d => Expr.written_orElse (Expr.written left) (Expr.written right) d
  | .assign slot x, d => by
      obtain ⟨e, hrun, he⟩ := Expr.written x d
      refine ⟨(e.push .dup).push (.store slot), ?_,
        ((he.append (.single e _)).append (.single _ _)).imp ?_⟩
      · simp only [Expr.assemble, run_bind, hrun, run_add_push]
      · rintro code pool ⟨⟨hx, hdup⟩, hstore⟩
        simp only [Draft.size_push] at *
        exact .assign hx hdup hstore
  | .advance slot op c target, d => Expr.written_advance slot op c target d
  | .choose test yes no, d =>
      Expr.written_choose (Expr.written test) (Expr.written yes) (Expr.written no) d
  | .call method args, d => by
      obtain ⟨e, hrun, he⟩ := argsWritten args d
      refine ⟨e.push (.call method.cls method.method), ?_,
        (he.append (.single e _)).imp fun code pool ⟨hargs, hcall⟩ => ?_⟩
      · rw [Expr.assemble, run_bind, hrun, run_add_push]
      · rw [Draft.size_push]
        exact .call hargs hcall
  | .routine r args, d => by
      obtain ⟨e, hrun, he⟩ := argsWritten args d
      refine ⟨e.push (.routine r), ?_,
        (he.append (.single e _)).imp fun code pool ⟨hargs, hcall⟩ => ?_⟩
      · rw [Expr.assemble, run_bind, hrun, run_add_push]
      · rw [Draft.size_push]
        exact .routine hargs hcall

theorem argsWritten : ∀ (xs : List Expr) (d : Draft), ArgsWritten xs d
  | [], d => ⟨d, rfl, (Writes.refl d).imp fun _ _ _ => .nil⟩
  | x :: xs, d => by
      obtain ⟨e, hrun, he⟩ := Expr.written x d
      obtain ⟨f, hrun', hf⟩ := argsWritten xs e
      refine ⟨f, ?_, (he.append hf).imp fun code pool ⟨hx, hxs⟩ => .cons hx hxs⟩
      rw [assembleArgs, run_bind, hrun, hrun']

end

/-- Jumps without a target, at several places. -/
def openJumps (places : List Nat) : List (Nat × Instr) :=
  places.map (·, .jump placeholder)

@[simp] theorem mem_openJumps {places : List Nat} {hole : Nat × Instr} :
    hole ∈ openJumps places ↔ hole.1 ∈ places ∧ hole.2 = .jump placeholder := by
  obtain ⟨k, i⟩ := hole
  simp only [openJumps, List.mem_map, Prod.mk.injEq]
  constructor
  · rintro ⟨k', hk', rfl, rfl⟩
    exact ⟨hk', rfl⟩
  · rintro ⟨hk, rfl⟩
    exact ⟨k, hk, rfl, rfl⟩

/-- The jumps out of two parts are those of the one and those of the other. -/
theorem mem_openJumps_append {p q : Pending} (hole : Nat × Instr) :
    hole ∈ (openJumps p.leaves ++ openJumps p.nexts) ++ (openJumps q.leaves ++ openJumps q.nexts) ↔
      hole ∈ openJumps (p.append q).leaves ++ openJumps (p.append q).nexts := by
  simp only [Pending.append, List.mem_append, mem_openJumps]
  grind

/-- The jumps out of a statement lead to the end and to the next round of the loop around it. -/
structure Pending.Aimed (p : Pending) (code : Array Instr) (leaving again : Nat) : Prop where
  leaves : ∀ k ∈ p.leaves, ∃ u, code[k]? = some (.jump u) ∧ u.toNat = leaving
  nexts : ∀ k ∈ p.nexts, ∃ u, code[k]? = some (.jump u) ∧ u.toNat = again

theorem Pending.aimed_append {p q : Pending} {code : Array Instr} {leaving again : Nat} :
    (p.append q).Aimed code leaving again ↔
      p.Aimed code leaving again ∧ q.Aimed code leaving again := by
  constructor
  · rintro ⟨hl, hn⟩
    constructor
    · exact ⟨fun k hk => hl k (List.mem_append_left _ hk),
        fun k hk => hn k (List.mem_append_left _ hk)⟩
    · exact ⟨fun k hk => hl k (List.mem_append_right _ hk),
        fun k hk => hn k (List.mem_append_right _ hk)⟩
  · rintro ⟨hp, hq⟩
    refine ⟨fun k hk => ?_, fun k hk => ?_⟩
    · exact (List.mem_append.1 hk).elim (hp.leaves k) (hq.leaves k)
    · exact (List.mem_append.1 hk).elim (hp.nexts k) (hq.nexts k)

/-- The code of a part of a method with jumps out of it, which belong to holes. -/
structure WritesOpen (d e : Draft) (p : Pending)
    (P : Array Instr → Array Literal → Nat → Nat → Prop) : Prop where
  writes : Writes d e (openJumps p.leaves ++ openJumps p.nexts) fun code pool =>
    ∀ leaving again, p.Aimed code leaving again → P code pool leaving again
  apart : ∀ k ∈ p.leaves, k ∉ p.nexts

namespace WritesOpen

variable {d e f : Draft} {p q : Pending}
  {P Q : Array Instr → Array Literal → Nat → Nat → Prop}

theorem leave_bounds (h : WritesOpen d e p P) {k : Nat} (hk : k ∈ p.leaves) :
    d.code.size ≤ k ∧ k < e.code.size := by
  have hmem : (k, Instr.jump placeholder) ∈ openJumps p.leaves ++ openJumps p.nexts := by
    simp [hk]
  exact ⟨(h.writes.reserved _ hmem).1, h.writes.hole_lt hmem⟩

theorem next_bounds (h : WritesOpen d e p P) {k : Nat} (hk : k ∈ p.nexts) :
    d.code.size ≤ k ∧ k < e.code.size := by
  have hmem : (k, Instr.jump placeholder) ∈ openJumps p.leaves ++ openJumps p.nexts := by
    simp [hk]
  exact ⟨(h.writes.reserved _ hmem).1, h.writes.hole_lt hmem⟩

/-- The jumps out of a part are behind a place before it. -/
theorem rest_behind (h : WritesOpen d e p P) {place : Nat} (hplace : place < d.code.size)
    {holes : List (Nat × Instr)} (hsub : openJumps p.leaves ++ openJumps p.nexts ⊆ holes) :
    ∀ hole ∈ openJumps p.leaves ++ openJumps p.nexts, hole ∈ holes ∧ hole.1 ≠ place := by
  intro hole hmem
  have := (h.writes.reserved hole hmem).1
  exact ⟨hsub hmem, by omega⟩

theorem leaves_behind (h : WritesOpen d e p P) {place : Nat} (hplace : place < d.code.size)
    {holes : List (Nat × Instr)} (hsub : openJumps p.leaves ⊆ holes) :
    ∀ hole ∈ openJumps p.leaves, hole ∈ holes ∧ hole.1 ≠ place := by
  intro hole hmem
  have := (h.leave_bounds (mem_openJumps.1 hmem).1).1
  exact ⟨hsub hmem, by omega⟩

/-- The jumps to the next round are aimed, when other holes are before the part. -/
theorem aimNexts (h : WritesOpen d e p P) {c : Draft} (front : List (Nat × Instr))
    {Q : Array Instr → Array Literal → Prop}
    (hall : Writes c e (front ++ (openJumps p.leaves ++ openJumps p.nexts)) Q)
    (hfront : ∀ hole ∈ front, hole.1 < d.code.size) (target : Nat)
    (htarget : target ≤ e.code.size) :
    Writes c (e.aimAll target p.nexts) (front ++ openJumps p.leaves) fun code pool =>
      Q code pool ∧ ∀ k ∈ p.nexts, ∃ u, code[k]? = some (.jump u) ∧ u.toNat = target := by
  refine hall.aimAll p.nexts (.jump placeholder) target (by simp +contextual) htarget
    fun hole hmem => ?_
  rcases List.mem_append.1 hmem with hmem | hmem
  · refine ⟨List.mem_append_left _ hmem, fun hnext => ?_⟩
    have := hfront hole hmem
    have := (h.next_bounds hnext).1
    omega
  · refine ⟨List.mem_append_right _ (List.mem_append_left _ hmem), ?_⟩
    exact h.apart _ (mem_openJumps.1 hmem).1

/-- Code without jumps out of it. -/
theorem closed {R : Array Instr → Array Literal → Prop} (h : Writes d e [] R)
    (hP : ∀ code pool leaving again, R code pool → P code pool leaving again) :
    WritesOpen d e .none P :=
  ⟨h.imp fun code pool hR leaving again _ => hP code pool leaving again hR, by simp [Pending.none]⟩

/-- The jumps out of two parts, one behind the other, are apart. -/
theorem apart_append {e' : Draft} (h : WritesOpen d e p P) (h' : WritesOpen e' f q Q)
    (hle : e.code.size ≤ e'.code.size) :
    ∀ k ∈ (p.append q).leaves, k ∉ (p.append q).nexts := by
  intro k hk hk'
  rcases List.mem_append.1 hk with hk | hk <;> rcases List.mem_append.1 hk' with hk' | hk'
  · exact h.apart k hk hk'
  · have := h.leave_bounds hk
    have := h'.next_bounds hk'
    omega
  · have := h'.leave_bounds hk
    have := h.next_bounds hk'
    omega
  · exact h'.apart k hk hk'

theorem append (h : WritesOpen d e p P) (h' : WritesOpen e f q Q) :
    WritesOpen d f (p.append q) fun code pool leaving again =>
      P code pool leaving again ∧ Q code pool leaving again where
  writes := by
    refine ((h.writes.append h'.writes).reorder mem_openJumps_append).imp
      fun code pool ⟨hP, hQ⟩ leaving again haimed => ?_
    rw [Pending.aimed_append] at haimed
    exact ⟨hP leaving again haimed.1, hQ leaving again haimed.2⟩
  apart := h.apart_append h' (Nat.le_refl _)

end WritesOpen

mutual

/-- A statement whose jumps have a loop to go to, inside a loop or not. -/
inductive Stmt.Confined : Bool → Stmt → Prop where
  | block {inLoop body} : BlockConfined inLoop body → Stmt.Confined inLoop (.block body)
  | store {inLoop slot e} : Stmt.Confined inLoop (.store slot e)
  | eval {inLoop e hasValue} : Stmt.Confined inLoop (.eval e hasValue)
  | condOnly {inLoop c y} : Stmt.Confined inLoop y → Stmt.Confined inLoop (.cond c y none)
  | condElse {inLoop c y n} : Stmt.Confined inLoop y → Stmt.Confined inLoop n →
      Stmt.Confined inLoop (.cond c y (some n))
  | loop {inLoop c b} : Stmt.Confined true b → Stmt.Confined inLoop (.loop c b)
  | doLoop {inLoop b c} : Stmt.Confined true b → Stmt.Confined inLoop (.doLoop b c)
  | forLoop {inLoop c b steps} : Stmt.Confined true b →
      (∀ st ∈ steps, ∃ e hasValue, st = .eval e hasValue) →
      Stmt.Confined inLoop (.forLoop c b steps)
  | ret {inLoop value} : Stmt.Confined inLoop (.ret value)
  | throw {inLoop e} : Stmt.Confined inLoop (.throw e)
  | leave : Stmt.Confined true .leave
  | next : Stmt.Confined true .next

inductive BlockConfined : Bool → List Stmt → Prop where
  | nil {inLoop} : BlockConfined inLoop []
  | cons {inLoop s rest} : Stmt.Confined inLoop s → BlockConfined inLoop rest →
      BlockConfined inLoop (s :: rest)

end

theorem BlockConfined.append {inLoop : Bool} {first rest : List Stmt}
    (h : BlockConfined inLoop first) (h' : BlockConfined inLoop rest) :
    BlockConfined inLoop (first ++ rest) := by
  induction first with
  | nil => exact h'
  | cons s first ih =>
      cases h with
      | cons hs hrest => exact .cons hs (ih hrest)

/-- The code of a statement. Only inside a loop can there be jumps out of it. -/
def Stmt.Written (s : Stmt) (inLoop : Bool) (d : Draft) : Prop :=
  ∃ p e, s.assemble.run d = (p, e) ∧ (inLoop = false → p = .none) ∧
    WritesOpen d e p fun code pool leaving again =>
      s.Laid code pool leaving again d.code.size e.code.size

def BlockWritten (body : List Stmt) (inLoop : Bool) (d : Draft) : Prop :=
  ∃ p e, (assembleBlock body).run d = (p, e) ∧ (inLoop = false → p = .none) ∧
    WritesOpen d e p fun code pool leaving again =>
      BlockLaid code pool leaving again d.code.size body e.code.size

/-- An expression that runs as a statement: its value, if it has one, is dropped. -/
theorem eval_written (x : Expr) (hasValue : Bool) (d : Draft) :
    ∃ e, (Stmt.eval x hasValue).assemble.run d = (.none, e) ∧
      Writes d e [] fun code pool => ∀ leaving again,
        (Stmt.eval x hasValue).Laid code pool leaving again d.code.size e.code.size := by
  obtain ⟨e, hrun, he⟩ := x.written d
  cases hasValue with
  | true =>
      refine ⟨e.push .pop, ?_, (he.append (.single e .pop)).imp ?_⟩
      · simp only [Stmt.assemble, run_bind, hrun, run_add_push, run_pure, if_true]
      · rintro code pool ⟨hx, hpop⟩ leaving again
        exact .eval hx ((needed_iff Instr.noConfusion ..).2 ⟨hpop, Draft.size_push e .pop⟩)
  | false =>
      refine ⟨e, ?_, he.imp fun code pool hx leaving again => ?_⟩
      · simp only [Stmt.assemble, run_bind, hrun, run_pure, Bool.false_eq_true, if_false]
      · exact .eval hx ((needed_nop ..).2 rfl)

/-- Expressions that run as statements have no jumps out of them. -/
theorem actions_written {steps : List Stmt}
    (h : ∀ st ∈ steps, ∃ e hasValue, st = .eval e hasValue) (d : Draft) :
    ∃ e, (assembleBlock steps).run d = (.none, e) ∧
      Writes d e [] fun code pool => ∀ leaving again,
        BlockLaid code pool leaving again d.code.size steps e.code.size := by
  induction steps generalizing d with
  | nil => exact ⟨d, rfl, (Writes.refl d).imp fun _ _ _ _ _ => .nil⟩
  | cons st rest ih =>
      obtain ⟨x, hasValue, rfl⟩ := h st List.mem_cons_self
      obtain ⟨e, hrun, he⟩ := eval_written x hasValue d
      obtain ⟨f, hrun', hf⟩ := ih (fun st' hst' => h st' (List.mem_cons_of_mem _ hst')) e
      refine ⟨f, ?_, (he.append hf).imp fun code pool ⟨hx, hrest⟩ leaving again => ?_⟩
      · simp only [assembleBlock, run_bind, hrun, hrun', run_pure]
        rfl
      · exact .cons (hx leaving again) (hrest leaving again)

section

variable {test : Expr} {yes no body : Stmt} {steps : List Stmt} {inLoop : Bool}

theorem Stmt.written_condOnly (hyes : ∀ d, yes.Written inLoop d) (d : Draft) :
    (Stmt.cond test yes none).Written inLoop d := by
  obtain ⟨e, hrun, he⟩ := test.written d
  obtain ⟨p, f, hrun', hp, hf⟩ := hyes (e.push (.jumpIfFalse placeholder))
  have hall := (he.append (.hole e (.jumpIfFalse placeholder))).append hf.writes
  have haim := hall.aim e.code.size (.jumpIfFalse placeholder) f.code.size (by simp)
    (Nat.le_refl _) (hf.rest_behind (by rw [Draft.size_push]; exact Nat.lt_succ_self _)
      (List.subset_append_right ..))
  refine ⟨p, f.aim e.code.size f.code.size, ?_, hp, haim.imp ?_, hf.apart⟩
  · simp only [Stmt.assemble, run_bind, hrun, hrun', run_jump_push, run_land, run_pure]
  · rintro code pool ⟨⟨⟨ht, -⟩, hy⟩, u, hjump, hu⟩ leaving again haimed
    have hy := hy leaving again haimed
    rw [Draft.size_push, ← hu] at hy
    rw [Draft.size_aim, ← hu]
    exact .condOnly ht hjump hy

theorem Stmt.written_condElse (hyes : ∀ d, yes.Written inLoop d) (helse : ∀ d, no.Written inLoop d)
    (d : Draft) : (Stmt.cond test yes (some no)).Written inLoop d := by
  obtain ⟨e, hrun, he⟩ := test.written d
  obtain ⟨p, f, hrun', hp, hf⟩ := hyes (e.push (.jumpIfFalse placeholder))
  obtain ⟨q, g, hrun'', hq, hg⟩ := helse
    ((f.push (.jump placeholder)).aim e.code.size (f.push (.jump placeholder)).code.size)
  have hall : Writes d _ (openJumps (p.append q).leaves ++ openJumps (p.append q).nexts) _ :=
    (he.branches hf.writes hg.writes).reorder mem_openJumps_append
  refine ⟨p.append q, _, ?_, fun h => by rw [hp h, hq h]; rfl, hall.imp ?_,
    hf.apart_append hg (by simp)⟩
  · simp only [Stmt.assemble, run_bind, hrun, hrun', hrun'', run_jump_push, run_land,
      run_pure]
  · rintro code pool ⟨ht, ⟨u, hno, hu⟩, hy, ⟨w, hend, hw⟩, hn⟩ leaving again haimed
    rw [Pending.aimed_append] at haimed
    have hy := hy leaving again haimed.1
    have hn := hn leaving again haimed.2
    simp only [Draft.size_push, Draft.size_aim] at *
    rw [← hw] at hn ⊢
    exact .condElse ht hno hy hend hu hn

theorem Stmt.written_loop (hbody : ∀ d, body.Written true d) (d : Draft) :
    (Stmt.loop test body).Written inLoop d := by
  obtain ⟨e, hrun, he⟩ := test.written d
  obtain ⟨p, f, hrun', hp, hf⟩ := hbody (e.push (.jumpIfFalse placeholder))
  have hpart := (he.append (.hole e (.jumpIfFalse placeholder))).append hf.writes
  have hround := hf.aimNexts _ hpart (by simp) d.code.size
    (Nat.le_trans hpart.grows.size (Nat.le_refl _))
  have hback := hround.jumpTo (.jump placeholder) d.code.size
    (by rw [Draft.size_aimAll]; exact hpart.grows.size)
  have hexit : Writes d _ (openJumps p.leaves) _ :=
    hback.aim e.code.size (.jumpIfFalse placeholder) (f.code.size + 1) (by simp) (by simp)
      (hf.leaves_behind (by simp) (List.subset_append_right ..))
  have hall : Writes d _ [] _ :=
    hexit.aimAll p.leaves (.jump placeholder) (f.code.size + 1) (by simp) (by simp) (by simp)
  refine ⟨.none, _, ?_, fun _ => rfl, WritesOpen.closed hall ?_⟩
  · simp only [Stmt.assemble, run_bind, run_here, hrun, hrun', run_jump_push, run_land,
      run_aim, Pending.aimNexts, run_aimAll, Pending.landLeaves, run_landAll, run_pure,
      Draft.size_aimAll, Draft.size_aim, Draft.size_push]
  · rintro code pool leaving again
      ⟨⟨⟨⟨⟨⟨ht, -⟩, hb⟩, hnexts⟩, back, hjump, htop⟩, exit, hif, hend⟩, hleaves⟩
    have hb := hb (f.code.size + 1) d.code.size ⟨hleaves, hnexts⟩
    simp only [Draft.size_aimAll, Draft.size_aim, Draft.size_push] at *
    exact .loop ht hif hb hjump htop hend

theorem Stmt.written_doLoop (hbody : ∀ d, body.Written true d) (d : Draft) :
    (Stmt.doLoop body test).Written inLoop d := by
  obtain ⟨p, e, hrun, hp, he⟩ := hbody d
  obtain ⟨f, hrun', hf⟩ := test.written (e.aimAll e.code.size p.nexts)
  have hround := he.aimNexts [] he.writes (by simp) e.code.size (Nat.le_refl _)
  have hback := (hround.append hf).jumpTo (.jumpIfTrue placeholder) d.code.size
    (hround.append hf).grows.size
  have hall : Writes d _ [] _ :=
    hback.aimAll p.leaves (.jump placeholder) (f.code.size + 1) (by simp) (by simp) (by simp)
  refine ⟨.none, _, ?_, fun _ => rfl, WritesOpen.closed hall ?_⟩
  · simp only [Stmt.assemble, run_bind, run_here, hrun, hrun', run_jump_push, run_aim,
      Pending.aimNexts, run_aimAll, Pending.landLeaves, run_landAll, run_pure,
      Draft.size_aim, Draft.size_push]
  · rintro code pool leaving again ⟨⟨⟨⟨hb, hnexts⟩, ht⟩, back, hjump, htop⟩, hleaves⟩
    have hb := hb (f.code.size + 1) e.code.size ⟨hleaves, hnexts⟩
    simp only [Draft.size_aimAll, Draft.size_aim, Draft.size_push] at *
    exact .doLoop hb ht hjump htop

theorem Stmt.written_forEver (hbody : ∀ d, body.Written true d)
    (hsteps : ∀ st ∈ steps, ∃ e hasValue, st = .eval e hasValue) (d : Draft) :
    (Stmt.forLoop none body steps).Written inLoop d := by
  obtain ⟨p, e, hrun, hp, he⟩ := hbody d
  obtain ⟨f, hrun', hf⟩ := actions_written hsteps (e.aimAll e.code.size p.nexts)
  have hround := he.aimNexts [] he.writes (by simp) e.code.size (Nat.le_refl _)
  have hback := (hround.append hf).jumpTo (.jump placeholder) d.code.size
    (hround.append hf).grows.size
  have hall : Writes d _ [] _ :=
    hback.aimAll p.leaves (.jump placeholder) (f.code.size + 1) (by simp) (by simp) (by simp)
  refine ⟨.none, _, ?_, fun _ => rfl, WritesOpen.closed hall ?_⟩
  · simp only [Stmt.assemble, Option.mapM_none, Option.forM, run_bind, run_here, hrun, hrun',
      run_jump_push, run_aim, Pending.aimNexts, run_aimAll, Pending.landLeaves,
      run_landAll, run_pure, Draft.size_aim, Draft.size_push]
  · rintro code pool leaving again ⟨⟨⟨⟨hb, hnexts⟩, hs⟩, back, hjump, htop⟩, hleaves⟩
    have hb := hb (f.code.size + 1) e.code.size ⟨hleaves, hnexts⟩
    have hs := hs leaving again
    simp only [Draft.size_aimAll, Draft.size_aim, Draft.size_push] at *
    exact .forEver hb hs hjump htop

theorem Stmt.written_forWhile (hbody : ∀ d, body.Written true d)
    (hsteps : ∀ st ∈ steps, ∃ e hasValue, st = .eval e hasValue) (d : Draft) :
    (Stmt.forLoop (some test) body steps).Written inLoop d := by
  obtain ⟨e, hrun, he⟩ := test.written d
  obtain ⟨p, f, hrun', hp, hf⟩ := hbody (e.push (.jumpIfFalse placeholder))
  obtain ⟨g, hrun'', hg⟩ := actions_written hsteps (f.aimAll f.code.size p.nexts)
  have hpart := (he.append (.hole e (.jumpIfFalse placeholder))).append hf.writes
  have hround := hf.aimNexts _ hpart (by simp) f.code.size (Nat.le_refl _)
  have hback := (hround.append hg).jumpTo (.jump placeholder) d.code.size
    (hround.append hg).grows.size
  have hexit : Writes d _ (openJumps p.leaves) _ :=
    hback.aim e.code.size (.jumpIfFalse placeholder) (g.code.size + 1) (by simp) (by simp)
      (hf.leaves_behind (by simp) (by simp))
  have hall : Writes d _ [] _ :=
    hexit.aimAll p.leaves (.jump placeholder) (g.code.size + 1) (by simp) (by simp) (by simp)
  refine ⟨.none, _, ?_, fun _ => rfl, WritesOpen.closed hall ?_⟩
  · have htest : ((some test).mapM fun c => do
        c.assemble
        jump .jumpIfFalse : Drafting (Option Nat)).run d =
        (some e.code.size, e.push (.jumpIfFalse placeholder)) := by
      have hjump : (do
          test.assemble
          jump .jumpIfFalse : Drafting Nat).run d =
          (e.code.size, e.push (.jumpIfFalse placeholder)) := by
        simp only [run_bind, hrun, run_jump_push]
      exact congrArg (Prod.map some id) hjump
    simp only [Stmt.assemble, htest, Option.forM, run_bind, run_here, hrun', hrun'',
      run_jump_push, run_land, run_aim, Pending.aimNexts, run_aimAll, Pending.landLeaves,
      run_landAll, run_pure, Draft.size_aim, Draft.size_push]
  · rintro code pool leaving again
      ⟨⟨⟨⟨⟨⟨⟨ht, -⟩, hb⟩, hnexts⟩, hs⟩, back, hjump, htop⟩, exit, hif, hend⟩, hleaves⟩
    have hb := hb (g.code.size + 1) f.code.size ⟨hleaves, hnexts⟩
    have hs := hs leaving again
    simp only [Draft.size_aimAll, Draft.size_aim, Draft.size_push] at *
    exact .forWhile ht hif hb hs hjump htop hend

end

mutual

theorem Stmt.written : ∀ (st : Stmt) {inLoop : Bool} (d : Draft), st.Confined inLoop →
    st.Written inLoop d
  | .block body, inLoop, d, h => by
      cases h with
      | block hbody =>
          obtain ⟨p, e, hrun, hnone, he⟩ := blockWritten body d hbody
          refine ⟨p, e, hrun, hnone, he.writes.imp fun code pool hlaid leaving again haimed => ?_,
            he.apart⟩
          exact .block (hlaid leaving again haimed)
  | .store slot x, inLoop, d, h => by
      obtain ⟨e, hrun, he⟩ := x.written d
      refine ⟨.none, e.push (.store slot), Stmt.run_assemble_store hrun slot, fun _ => rfl,
        WritesOpen.closed (he.append (.single e _)) fun code pool leaving again ⟨hx, hstore⟩ => ?_⟩
      rw [Draft.size_push]
      exact .store hx hstore
  | .eval x hasValue, inLoop, d, h => by
      obtain ⟨e, hrun, he⟩ := eval_written x hasValue d
      exact ⟨.none, e, hrun, fun _ => rfl,
        WritesOpen.closed he fun code pool leaving again hlaid => hlaid leaving again⟩
  | .cond test yes none, inLoop, d, h => by
      cases h with
      | condOnly hy => exact Stmt.written_condOnly (fun d => Stmt.written yes d hy) d
  | .cond test yes (some no), inLoop, d, h => by
      cases h with
      | condElse hy hn =>
          exact Stmt.written_condElse (fun d => Stmt.written yes d hy)
            (fun d => Stmt.written no d hn) d
  | .loop test body, inLoop, d, h => by
      cases h with
      | loop hb => exact Stmt.written_loop (fun d => Stmt.written body d hb) d
  | .doLoop body test, inLoop, d, h => by
      cases h with
      | doLoop hb => exact Stmt.written_doLoop (fun d => Stmt.written body d hb) d
  | .forLoop none body steps, inLoop, d, h => by
      cases h with
      | forLoop hb hsteps =>
          exact Stmt.written_forEver (fun d => Stmt.written body d hb) hsteps d
  | .forLoop (some test) body steps, inLoop, d, h => by
      cases h with
      | forLoop hb hsteps =>
          exact Stmt.written_forWhile (fun d => Stmt.written body d hb) hsteps d
  | .ret none, inLoop, d, h => by
      refine ⟨.none, d.push .retVoid, rfl, fun _ => rfl,
        WritesOpen.closed (.single d _) fun code pool leaving again hret => ?_⟩
      rw [Draft.size_push]
      exact .retVoid hret
  | .ret (some x), inLoop, d, h => by
      obtain ⟨e, hrun, he⟩ := x.written d
      refine ⟨.none, e.push .ret, ?_, fun _ => rfl,
        WritesOpen.closed (he.append (.single e _)) fun code pool leaving again ⟨hx, hret⟩ => ?_⟩
      · simp only [Stmt.assemble, run_bind, hrun, run_add_push, run_pure]
      · rw [Draft.size_push]
        exact .ret hx hret
  | .throw x, inLoop, d, h => by
      obtain ⟨e, hrun, he⟩ := x.written d
      refine ⟨.none, e.push .throw, ?_, fun _ => rfl,
        WritesOpen.closed (he.append (.single e _)) fun code pool leaving again ⟨hx, hthrow⟩ => ?_⟩
      · simp only [Stmt.assemble, run_bind, hrun, run_add_push, run_pure]
      · rw [Draft.size_push]
        exact .throw hx hthrow
  | .leave, inLoop, d, h => by
      cases h
      refine ⟨⟨[d.code.size], []⟩, d.push (.jump placeholder), rfl, nofun, ?_, by simp⟩
      refine (Writes.hole d _).imp fun code pool _ leaving again haimed => ?_
      obtain ⟨u, hu, htarget⟩ := haimed.leaves _ List.mem_cons_self
      rw [Draft.size_push]
      exact .leave hu htarget
  | .next, inLoop, d, h => by
      cases h
      refine ⟨⟨[], [d.code.size]⟩, d.push (.jump placeholder), rfl, nofun, ?_, by simp⟩
      refine (Writes.hole d _).imp fun code pool _ leaving again haimed => ?_
      obtain ⟨u, hu, htarget⟩ := haimed.nexts _ List.mem_cons_self
      rw [Draft.size_push]
      exact .next hu htarget

theorem blockWritten : ∀ (body : List Stmt) {inLoop : Bool} (d : Draft),
    BlockConfined inLoop body → BlockWritten body inLoop d
  | [], inLoop, d, h =>
      ⟨.none, d, rfl, fun _ => rfl, WritesOpen.closed (Writes.refl d) fun _ _ _ _ _ => .nil⟩
  | st :: rest, inLoop, d, h => by
      cases h with
      | cons hs hrest =>
          obtain ⟨p, e, hrun, hp, he⟩ := Stmt.written st d hs
          obtain ⟨q, f, hrun', hq, hf⟩ := blockWritten rest e hrest
          refine ⟨p.append q, f, ?_, fun h => by rw [hp h, hq h]; rfl,
            ⟨(he.append hf).writes.imp ?_, (he.append hf).apart⟩⟩
          · simp only [assembleBlock, run_bind, hrun, hrun', run_pure]
          · intro code pool hlaid leaving again haimed
            obtain ⟨hfirst, hothers⟩ := hlaid leaving again haimed
            exact .cons hfirst hothers

end

/-- A method is the code of its body, and a return if the end of the body can be reached. -/
theorem Method.laid {m : Method} (hbody : m.body.Confined false) (hcode : m.draft.code = #[])
    (hliterals : m.draft.literals = #[]) (hsize : m.assemble.code.size ≤ placeholder.toNat) :
    m.assemble.locals = m.draft.locals ∧ ∃ stop,
      (∀ leaving again, m.body.Laid m.assemble.code m.assemble.literals leaving again 0 stop) ∧
      if m.endsOpen then m.assemble.code[stop]? = some .retVoid ∧ m.assemble.code.size = stop + 1
      else m.assemble.code.size = stop := by
  obtain ⟨p, e, hrun, hp, he⟩ := Stmt.written m.body m.draft hbody
  obtain rfl := hp rfl
  have hclosed : Writes m.draft e [] fun code pool => ∀ leaving again,
      m.body.Laid code pool leaving again m.draft.code.size e.code.size :=
    he.writes.imp fun code pool h leaving again =>
      h leaving again ⟨by simp [Pending.none], by simp [Pending.none]⟩
  have hstart : m.draft.code.size = 0 := by simp [hcode]
  have hpool : m.draft.literals.size ≤ m.draft.code.size := by simp [hliterals]
  have hfinal : (((do
      let _ ← m.body.assemble
      if m.endsOpen then
        add .retVoid) : Drafting Unit).run m.draft).2 =
      if m.endsOpen then e.push .retVoid else e := by
    rw [run_bind, hrun]
    cases m.endsOpen <;> rfl
  have hassemble : m.assemble.code = (if m.endsOpen then e.push .retVoid else e).code ∧
      m.assemble.literals = (if m.endsOpen then e.push .retVoid else e).literals ∧
      m.assemble.locals = (if m.endsOpen then e.push .retVoid else e).locals := by
    rw [← hfinal]
    exact ⟨rfl, rfl, rfl⟩
  obtain ⟨hc, hl, hlocals⟩ := hassemble
  rw [hc] at hsize
  rw [hc, hl, hlocals, ← hstart]
  cases hopen : m.endsOpen with
  | false =>
      simp only [hopen, Bool.false_eq_true, if_false] at hsize ⊢
      exact ⟨hclosed.grows.locals, e.code.size,
        hclosed.shows ⟨hpool, hsize⟩ _ _ ⟨fun _ _ _ _ => rfl, fun _ _ h => h⟩, rfl⟩
  | true =>
      simp only [hopen, if_true] at hsize ⊢
      have hall := hclosed.append (.single e .retVoid)
      obtain ⟨hlaid, hret⟩ :=
        hall.shows ⟨hpool, hsize⟩ _ _ ⟨fun _ _ _ _ => rfl, fun _ _ h => h⟩
      exact ⟨hall.grows.locals, e.code.size, hlaid, hret, Draft.size_push e .retVoid⟩

end Scriptlet.Core
