import Scriptlet.Proofs.Text.Extent
import Scriptlet.Tree

namespace Scriptlet.Tree

/-!
# Nodes

The parts of a tree that carry a span, and what it means for all of them to lie where they should.
-/

open Text (Span)

inductive Node where
  | ident (i : Ident)
  | type (t : TypeRef)
  | expr (e : Expr)
  | stmt (s : Stmt)
  | block (b : Block)
  | method (m : Method)
  | cls (c : Class)
  | importDecl (i : Import)

def TypeRef.parts (t : TypeRef) : List Node :=
  match t.shape with
  | .named path => path.map .ident
  | .void | .basic _ => []

def Expr.parts : Expr → List Node
  | .literal .. | .name .. | .type .. => []
  | .member receiver i _ => [.expr receiver, .ident i]
  | .call callee args _ => .expr callee :: args.map .expr
  | .index receiver place _ => [.expr receiver, .expr place]
  | .new t args _ => .type t :: args.map .expr
  | .unary _ operand _ => [.expr operand]
  | .binary _ left right _ => [.expr left, .expr right]
  | .assign _ target value _ => [.expr target, .expr value]
  | .step _ _ target _ => [.expr target]
  | .conditional condition yes no _ => [.expr condition, .expr yes, .expr no]
  | .cast t operand _ => [.type t, .expr operand]

def Declarator.parts (d : Declarator) : List Node :=
  .ident d.name :: d.value.toList.map .expr

def LocalDecl.parts (d : LocalDecl) : List Node :=
  d.type.toList.map .type ++ d.declarators.flatMap Declarator.parts

def ForInit.parts : ForInit → List Node
  | .nothing => []
  | .locals d => d.parts
  | .exprs es => es.map .expr

def Stmt.parts : Stmt → List Node
  | .block body _ => body.map .stmt
  | .empty _ | .leave _ | .next _ => []
  | .locals d _ => d.parts
  | .expr e _ | .throw e _ => [.expr e]
  | .cond condition yes no _ => .expr condition :: .stmt yes :: no.toList.map .stmt
  | .loop condition body _ => [.expr condition, .stmt body]
  | .doLoop body condition _ => [.stmt body, .expr condition]
  | .forLoop init condition steps body _ =>
      init.parts ++ condition.toList.map .expr ++ steps.map .expr ++ [.stmt body]
  | .ret value _ => value.toList.map .expr

def Param.parts (p : Param) : List Node :=
  [.type p.type, .ident p.name]

def Method.parts (m : Method) : List Node :=
  .type m.result :: .ident m.name :: m.params.flatMap Param.parts ++ [.block m.body]

def Class.parts (c : Class) : List Node :=
  .ident c.name :: c.methods.map .method

namespace Node

def span : Node → Span
  | ident i => i.span
  | type t => t.span
  | expr e => e.span
  | stmt s => s.span
  | block b => b.span
  | method m => m.span
  | cls c => c.span
  | importDecl i => i.span

/-- The nodes of which a node is made. -/
def parts : Node → List Node
  | ident _ => []
  | type t => t.parts
  | expr e => e.parts
  | stmt s => s.parts
  | block b => b.body.map .stmt
  | method m => m.parts
  | cls c => c.parts
  | importDecl i => i.path.map .ident

/-- The node itself, its parts, their parts and so on. -/
inductive Has : Node → Node → Prop
  | self (n : Node) : Has n n
  | part {n m k : Node} (hm : m ∈ n.parts) (h : Has m k) : Has n k

/-- A node and all that it has fit a text, and each of them holds its parts. -/
def Sound (source : List Char) (n : Node) : Prop :=
  ∀ m, n.Has m → m.span.Fits source ∧ ∀ k ∈ m.parts, k.span.Within m.span

/-- A sound node between two offsets. -/
structure Lies (source : List Char) (lo hi : Nat) (n : Node) : Prop where
  sound : n.Sound source
  start : lo ≤ n.span.start
  stop : n.span.stop ≤ hi

end Node

/-- Nodes between two offsets. -/
def LieIn (source : List Char) (lo hi : Nat) (ns : List Node) : Prop :=
  ∀ n ∈ ns, n.Lies source lo hi

section

variable {source : List Char} {lo hi lo' hi' : Nat} {n m k : Node} {ns ms : List Node} {a b : Span}

theorem Node.Lies.mono (h : n.Lies source lo hi) (hlo : lo' ≤ lo) (hhi : hi ≤ hi') :
    n.Lies source lo' hi' :=
  ⟨h.sound, Nat.le_trans hlo h.start, Nat.le_trans h.stop hhi⟩

theorem lieIn_nil : LieIn source lo hi [] :=
  fun _ h => absurd h List.not_mem_nil

theorem lieIn_cons : LieIn source lo hi (n :: ns) ↔ n.Lies source lo hi ∧ LieIn source lo hi ns :=
  List.forall_mem_cons

theorem lieIn_singleton : LieIn source lo hi [n] ↔ n.Lies source lo hi :=
  List.forall_mem_singleton

theorem lieIn_append :
    LieIn source lo hi (ns ++ ms) ↔ LieIn source lo hi ns ∧ LieIn source lo hi ms :=
  List.forall_mem_append

theorem lieIn_map {α : Type} {f : α → Node} {as : List α} :
    LieIn source lo hi (as.map f) ↔ ∀ a ∈ as, LieIn source lo hi [f a] := by
  simp only [LieIn, List.forall_mem_map, List.forall_mem_singleton]

theorem lieIn_flatMap {α : Type} {f : α → List Node} {as : List α} :
    LieIn source lo hi (as.flatMap f) ↔ ∀ a ∈ as, LieIn source lo hi (f a) := by
  simp only [LieIn, List.forall_mem_flatMap]

theorem LieIn.mono (h : LieIn source lo hi ns) (hlo : lo' ≤ lo) (hhi : hi ≤ hi') :
    LieIn source lo' hi' ns :=
  fun n hn => (h n hn).mono hlo hhi

/-- A node that holds its parts is sound if they are. -/
theorem Node.sound_of_parts (hspan : n.span.Fits source)
    (hparts : LieIn source n.span.start n.span.stop n.parts) : n.Sound source := by
  intro m hm
  cases hm with
  | self => exact ⟨hspan, fun k hk => ⟨(hparts k hk).start, (hparts k hk).stop⟩⟩
  | part hk hm => exact (hparts _ hk).sound m hm

theorem Node.Sound.fits (h : n.Sound source) : n.span.Fits source :=
  (h n (.self n)).1

theorem Node.Sound.parts (h : n.Sound source) : ∀ m ∈ n.parts, m.Sound source :=
  fun _ hm k hk => h k (.part hm hk)

/-- What a node is made of lies where the node does. -/
theorem Node.Lies.parts (h : n.Lies source lo hi) : LieIn source lo hi n.parts := by
  intro k hk
  have hwithin := (h.sound n (.self n)).2 k hk
  exact ⟨h.sound.parts k hk, Nat.le_trans h.start hwithin.1, Nat.le_trans hwithin.2 h.stop⟩

/-- A node between two spans, the first of which begins it and the second of which ends it. -/
theorem Node.lies_of_merge (ha : a.Fits source) (hb : b.Fits source) (hspan : n.span = a.merge b)
    (hparts : LieIn source a.start b.stop n.parts) (hstart : lo ≤ a.start) (hstart' : lo ≤ b.start)
    (hstop : a.stop ≤ hi) (hstop' : b.stop ≤ hi) : n.Lies source lo hi := by
  refine ⟨n.sound_of_parts (hspan ▸ ha.merge hb) (hparts.mono ?_ ?_), ?_, ?_⟩
  · rw [hspan]
    exact Nat.min_le_left _ _
  · rw [hspan]
    exact Nat.le_max_right _ _
  · rw [hspan]
    exact Nat.le_min.2 ⟨hstart, hstart'⟩
  · rw [hspan]
    exact Nat.max_le.2 ⟨hstop, hstop'⟩

/-- A node of a single token. -/
theorem Node.lies_of_fits (hspan : n.span.Fits source) (hparts : n.parts = [])
    (hstart : lo ≤ n.span.start) (hstop : n.span.stop ≤ hi) : n.Lies source lo hi :=
  ⟨n.sound_of_parts hspan (hparts ▸ lieIn_nil), hstart, hstop⟩

end

end Scriptlet.Tree
