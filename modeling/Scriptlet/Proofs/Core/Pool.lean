import Scriptlet.Core.Assembly
import Scriptlet.Proofs.Code.Draft

namespace Scriptlet.Core

/-!
# Literals in the pool

Assembled code pushes each literal of its program from the pool.
-/

open Code (Draft Drafting Instr Literal placeOperand)
open Code.Drafting

mutual

/-- The literals of an expression, in the order of its code. -/
def Expr.literals : Expr → List Literal
  | .literal l => [l]
  | .load _ => []
  | .convert _ _ e | .settle _ _ e | .unary _ e | .assign _ e => e.literals
  | .combine _ left right | .andAlso left right | .orElse left right =>
      left.literals ++ right.literals
  | .advance _ _ _ _ => [.int 1]
  | .choose condition yes no => condition.literals ++ (yes.literals ++ no.literals)
  | .call _ args | .routine _ args => literalsOf args

def literalsOf : List Expr → List Literal
  | [] => []
  | e :: es => e.literals ++ literalsOf es

end

mutual

def Stmt.literals : Stmt → List Literal
  | .block body => blockLiterals body
  | .store _ e | .eval e _ | .ret (some e) | .throw e => e.literals
  | .cond condition yes none => condition.literals ++ yes.literals
  | .cond condition yes (some no) => condition.literals ++ (yes.literals ++ no.literals)
  | .loop condition body => condition.literals ++ body.literals
  | .doLoop body condition => body.literals ++ condition.literals
  | .forLoop none body steps => body.literals ++ blockLiterals steps
  | .forLoop (some condition) body steps =>
      condition.literals ++ (body.literals ++ blockLiterals steps)
  | .ret none | .leave | .next => []

def blockLiterals : List Stmt → List Literal
  | [] => []
  | s :: rest => s.literals ++ blockLiterals rest

end

/-- The code pushes the literal from its place in the pool. -/
def Pushes (code : Array Instr) (pool : Array Literal) (l : Literal) : Prop :=
  ∃ place, pool[place]? = some l ∧ .const (placeOperand place) ∈ code

/-- An action lets a draft push some more literals. -/
structure Adds {α : Type} (x : Drafting α) (ls : List Literal) : Prop where
  keeps : ∀ (d : Draft) l, Pushes d.code d.literals l →
    Pushes (x.run d).2.code (x.run d).2.literals l
  pushes : ∀ (d : Draft), ∀ l ∈ ls, Pushes (x.run d).2.code (x.run d).2.literals l

namespace Pushes

variable {d : Draft} {l : Literal}

theorem push (h : Pushes d.code d.literals l) (i : Instr) :
    Pushes (d.push i).code (d.push i).literals l := by
  obtain ⟨place, hpool, hcode⟩ := h
  exact ⟨place, hpool, Array.mem_push_of_mem i hcode⟩

/-- Aiming changes nothing but jumps. -/
theorem aim (h : Pushes d.code d.literals l) (place target : Nat) :
    Pushes (d.aim place target).code (d.aim place target).literals l := by
  obtain ⟨n, hpool, hcode⟩ := h
  obtain ⟨k, hk⟩ := Array.getElem?_of_mem hcode
  refine ⟨n, hpool, Array.mem_of_getElem? (i := k) ?_⟩
  rw [Draft.code_aim, hk]
  split <;> rfl

theorem addLiteral (h : Pushes d.code d.literals l) (m : Literal) (i : Instr) :
    Pushes ((d.withLiteral m).1.push i).code ((d.withLiteral m).1.push i).literals l := by
  obtain ⟨hcode, -, -, hkeeps, -⟩ := d.withLiteral_spec m
  obtain ⟨place, hpool, hmem⟩ := h
  exact push ⟨place, hkeeps place l hpool, by rwa [hcode]⟩ i

end Pushes

namespace Adds

variable {α β : Type} {x : Drafting α} {f : α → Drafting β} {ls ms : List Literal}

theorem bind (h : Adds x ls) (h' : ∀ a, Adds (f a) ms) : Adds (x >>= f) (ls ++ ms) where
  keeps d l hl := (h' _).keeps _ l (h.keeps d l hl)
  pushes d l hl := by
    obtain hl | hl := List.mem_append.1 hl
    · exact (h' _).keeps _ l (h.pushes d l hl)
    · exact (h' _).pushes _ l hl

theorem first (h : Adds x ls) (h' : ∀ a, Adds (f a) []) : Adds (x >>= f) ls :=
  List.append_nil ls ▸ h.bind h'

theorem last (h : Adds x []) (h' : ∀ a, Adds (f a) ls) : Adds (x >>= f) ls :=
  h.bind h'

theorem pure (a : α) : Adds (Pure.pure a) [] :=
  ⟨fun _ _ h => h, fun _ _ h => absurd h List.not_mem_nil⟩

theorem here : Adds here [] :=
  ⟨fun _ _ h => h, fun _ _ h => absurd h List.not_mem_nil⟩

theorem emit (i : Instr) : Adds (emit i) [] :=
  ⟨fun _ _ h => h.push i, fun _ _ h => absurd h List.not_mem_nil⟩

theorem add (i : Instr) : Adds (add i) [] :=
  ⟨fun _ _ h => h.push i, fun _ _ h => absurd h List.not_mem_nil⟩

theorem jump (make : UInt32 → Instr) : Adds (jump make) [] :=
  emit _

theorem aim (place target : Nat) : Adds (aim place target) [] := by
  refine ⟨fun d l h => ?_, fun _ _ h => absurd h List.not_mem_nil⟩
  rw [run_aim]
  exact h.aim place target

theorem land (place : Nat) : Adds (land place) [] :=
  here.last fun target => aim place target

theorem forM {places : List Nat} {f : Nat → Drafting PUnit} (h : ∀ place, Adds (f place) []) :
    Adds (places.forM f) [] := by
  induction places with
  | nil => exact pure _
  | cons place places ih => exact (h place).last fun _ => ih

theorem literal (l : Literal) : Adds (addLiteral l) [l] := by
  refine ⟨fun d m h => ?_, fun d m hm => ?_⟩
  · rw [run_addLiteral]
    exact h.addLiteral l _
  · obtain rfl := List.mem_singleton.1 hm
    obtain ⟨-, -, hplace, -, -⟩ := d.withLiteral_spec m
    rw [run_addLiteral]
    exact ⟨_, hplace, Array.mem_push_self⟩

theorem needed (i : Instr) : Adds (emitNeeded i) [] := by
  unfold emitNeeded
  split
  · exact add i
  · exact pure _

end Adds

mutual

/-- The code of an expression pushes its literals. -/
theorem Expr.adds : ∀ e : Expr, Adds e.assemble e.literals
  | .literal l => by
      rw [Expr.assemble, Expr.literals]
      exact .literal l
  | .load slot => by
      rw [Expr.assemble, Expr.literals]
      exact .add _
  | .convert c target e => by
      rw [Expr.assemble, Expr.literals]
      exact (Expr.adds e).first fun _ => .needed _
  | .settle c target e => by
      rw [Expr.assemble, Expr.literals]
      exact (Expr.adds e).first fun _ => .add _
  | .unary op e => by
      rw [Expr.assemble, Expr.literals]
      exact (Expr.adds e).first fun _ => .add _
  | .assign slot e => by
      rw [Expr.assemble, Expr.literals]
      exact (Expr.adds e).first fun _ => (Adds.add _).last fun _ => .add _
  | .combine c left right => by
      rw [Expr.assemble, Expr.literals]
      exact (Expr.adds left).bind fun _ => (Expr.adds right).first fun _ => .add _
  | .andAlso left right => by
      rw [Expr.assemble, Expr.literals]
      refine (Expr.adds left).bind fun _ => ?_
      refine (Adds.add _).last fun _ => (Adds.jump _).last fun decided => ?_
      exact (Adds.add _).last fun _ => (Expr.adds right).first fun _ => .land decided
  | .orElse left right => by
      rw [Expr.assemble, Expr.literals]
      refine (Expr.adds left).bind fun _ => ?_
      refine (Adds.add _).last fun _ => (Adds.jump _).last fun decided => ?_
      exact (Adds.add _).last fun _ => (Expr.adds right).first fun _ => .land decided
  | .advance slot op c target => by
      rw [Expr.assemble, Expr.literals]
      refine (Adds.add _).last fun _ => (Adds.add _).last fun _ => ?_
      refine (Adds.literal _).first fun _ => (Adds.add _).last fun _ => ?_
      exact (Adds.needed _).last fun _ => .add _
  | .choose condition yes no => by
      rw [Expr.assemble, Expr.literals]
      refine (Expr.adds condition).bind fun _ => (Adds.jump _).last fun toNo => ?_
      refine (Expr.adds yes).bind fun _ => (Adds.jump _).last fun toEnd => ?_
      exact (Adds.land toNo).last fun _ => (Expr.adds no).first fun _ => .land toEnd
  | .call method args => by
      rw [Expr.assemble, Expr.literals]
      exact (adds_args args).first fun _ => .add _
  | .routine r args => by
      rw [Expr.assemble, Expr.literals]
      exact (adds_args args).first fun _ => .add _

theorem adds_args : ∀ es : List Expr, Adds (assembleArgs es) (literalsOf es)
  | [] => by
      rw [assembleArgs, literalsOf]
      exact .pure _
  | e :: es => by
      rw [assembleArgs, literalsOf]
      exact (Expr.adds e).bind fun _ => adds_args es

end

/-- Jumps get their targets once the code that they wait for is written. -/
theorem adds_pending (p : Pending) (target : Nat) :
    Adds (p.aimNexts target) [] ∧ Adds p.landLeaves [] :=
  ⟨.forM fun place => .aim place target, .forM .land⟩

/-- What a `for` writes behind its condition. -/
theorem adds_turn {body steps : Drafting Pending} {ls ms : List Literal} (hbody : Adds body ls)
    (hsteps : Adds steps ms) (top : Nat) (exit : Option Nat) :
    Adds (do
      let p ← body
      p.aimNexts (← here)
      let _ ← steps
      let back ← jump .jump
      aim back top
      exit.forM land
      p.landLeaves
      return Pending.none) (ls ++ ms) := by
  have hexit : Adds (exit.forM land) [] := by
    cases exit with
    | none => exact .pure _
    | some place => exact .land place
  refine hbody.bind fun p => Adds.here.last fun next => (adds_pending p next).1.last fun _ => ?_
  refine hsteps.first fun _ => (Adds.jump _).last fun back => (Adds.aim back top).last fun _ => ?_
  exact hexit.last fun _ => (adds_pending p next).2.last fun _ => .pure _

mutual

/-- The code of a statement pushes its literals. -/
theorem Stmt.adds : ∀ s : Stmt, Adds s.assemble s.literals
  | .block body => by
      rw [Stmt.assemble, Stmt.literals]
      exact adds_block body
  | .store slot e => by
      rw [Stmt.assemble, Stmt.literals]
      exact (Expr.adds e).first fun _ => (Adds.add _).last fun _ => .pure _
  | .eval e hasValue => by
      rw [Stmt.assemble, Stmt.literals]
      refine (Expr.adds e).first fun _ => ?_
      split
      · exact (Adds.add _).last fun _ => .pure _
      · exact .pure _
  | .cond condition yes none => by
      rw [Stmt.assemble, Stmt.literals]
      refine (Expr.adds condition).bind fun _ => (Adds.jump _).last fun toEnd => ?_
      exact (Stmt.adds yes).first fun p => (Adds.land toEnd).last fun _ => .pure p
  | .cond condition yes (some no) => by
      rw [Stmt.assemble, Stmt.literals]
      refine (Expr.adds condition).bind fun _ => (Adds.jump _).last fun toNo => ?_
      refine (Stmt.adds yes).bind fun p => (Adds.jump _).last fun toEnd => ?_
      refine (Adds.land toNo).last fun _ => (Stmt.adds no).first fun q => ?_
      exact (Adds.land toEnd).last fun _ => .pure _
  | .loop condition body => by
      rw [Stmt.assemble, Stmt.literals]
      refine Adds.here.last fun top => (Expr.adds condition).bind fun _ => ?_
      refine (Adds.jump _).last fun exit => (Stmt.adds body).first fun p => ?_
      refine (adds_pending p top).1.last fun _ => (Adds.jump _).last fun back => ?_
      refine (Adds.aim back top).last fun _ => (Adds.land exit).last fun _ => ?_
      exact (adds_pending p top).2.last fun _ => .pure _
  | .doLoop body condition => by
      rw [Stmt.assemble, Stmt.literals]
      refine Adds.here.last fun top => (Stmt.adds body).bind fun p => ?_
      refine Adds.here.last fun next => (adds_pending p next).1.last fun _ => ?_
      refine (Expr.adds condition).first fun _ => (Adds.jump _).last fun back => ?_
      refine (Adds.aim back top).last fun _ => ?_
      exact (adds_pending p next).2.last fun _ => .pure _
  | .forLoop none body steps => by
      rw [Stmt.assemble, Stmt.literals]
      refine Adds.here.last fun top => (Adds.pure none).last fun exit => ?_
      exact adds_turn (Stmt.adds body) (adds_block steps) top exit
  | .forLoop (some condition) body steps => by
      rw [Stmt.assemble, Stmt.literals]
      refine Adds.here.last fun top => Adds.bind ?_ fun exit =>
        adds_turn (Stmt.adds body) (adds_block steps) top exit
      have hexit := (Expr.adds condition).first fun _ => Adds.jump .jumpIfFalse
      exact hexit.first fun place => .pure (some place)
  | .ret (some e) => by
      rw [Stmt.assemble, Stmt.literals]
      exact (Expr.adds e).first fun _ => (Adds.add _).last fun _ => .pure _
  | .ret none => by
      rw [Stmt.assemble, Stmt.literals]
      exact (Adds.add _).last fun _ => .pure _
  | .throw e => by
      rw [Stmt.assemble, Stmt.literals]
      exact (Expr.adds e).first fun _ => (Adds.add _).last fun _ => .pure _
  | .leave => by
      rw [Stmt.assemble, Stmt.literals]
      exact (Adds.jump _).last fun _ => .pure _
  | .next => by
      rw [Stmt.assemble, Stmt.literals]
      exact (Adds.jump _).last fun _ => .pure _

theorem adds_block : ∀ body : List Stmt, Adds (assembleBlock body) (blockLiterals body)
  | [] => by
      rw [assembleBlock, blockLiterals]
      exact .pure _
  | s :: rest => by
      rw [assembleBlock, blockLiterals]
      exact (Stmt.adds s).bind fun p => (adds_block rest).first fun q => .pure _

end

/-- The code of a literal is one instruction, and the pool gets the literal unless it is there. -/
theorem assemble_literal (l : Literal) (d : Draft) :
    ∃ place pool, (Expr.literal l).assemble.run d =
        ((), ⟨d.code.push (.const (placeOperand place)), pool, d.locals⟩) ∧
      pool[place]? = some l ∧ pool = if l ∈ d.literals then d.literals else d.literals.push l := by
  rw [Expr.assemble, run_addLiteral]
  obtain ⟨hcode, hlocals, hplace, -, -⟩ := d.withLiteral_spec l
  refine ⟨_, (d.withLiteral l).1.literals, ?_, hplace, ?_⟩
  · rw [Draft.push, hcode, hlocals]
  · unfold Draft.withLiteral
    cases hi : d.literals.findIdx? (· == l) with
    | none =>
        rw [if_neg]
        intro hmem
        have hno := Array.findIdx?_eq_none_iff.1 hi l hmem
        simp at hno
    | some place =>
        obtain ⟨hlt, heq, -⟩ := Array.findIdx?_eq_some_iff_getElem.1 hi
        rw [beq_iff_eq] at heq
        exact (if_pos (heq ▸ Array.getElem_mem hlt)).symm

/-- A compiled method pushes the literals of its body. -/
theorem Method.pushes {m : Method} {l : Literal} (hl : l ∈ m.body.literals) :
    Pushes m.assemble.code m.assemble.literals l := by
  have hwrite : Adds (do let _ ← m.body.assemble; if m.endsOpen then add .retVoid)
      m.body.literals := by
    refine (Stmt.adds m.body).first fun _ => ?_
    split
    · exact .add _
    · exact .pure _
  exact hwrite.pushes m.draft l hl

end Scriptlet.Core
