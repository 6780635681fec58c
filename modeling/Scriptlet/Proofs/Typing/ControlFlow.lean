import Mathlib.Logic.Relation
import Scriptlet.Parser.Source
import Scriptlet.Typing.Source

namespace Scriptlet

/-!
# Control flow

The control-flow graph of a body, and what checking makes of it: a missing return is reported if the
end of the body can be reached. Checking takes the test of a `do` loop for reached as soon as the
loop is, even if no way through the body leads there, so it reports more methods than it should.
-/

namespace Tree

/-- What is still to be done at a place of a body. -/
inductive Task where
  | run (s : Stmt)
  /-- The test of a loop with a body. A loop without a condition passes its test. -/
  | test (condition : Option Expr) (body : Stmt)

/-- A place of a body, as all that is still to be done from there, in order. At the end there is
nothing left. -/
abbrev Place := List Task

/-- Whether a test can fail: there is a condition, and it is not the literal `true`. -/
def CanFail (condition : Option Expr) : Prop :=
  ∃ e, condition = some e ∧ ∀ span, e ≠ .literal (.bool true) span

theorem canFail_some_iff (e : Expr) : CanFail (some e) ↔ e.isTrue = false := by
  constructor
  · rintro ⟨_, heq, he⟩
    obtain rfl := Option.some.inj heq
    rw [← Bool.not_eq_true]
    intro htrue
    unfold Expr.isTrue at htrue
    split at htrue
    · next span =>
        subst htrue
        exact he span rfl
    · cases htrue
  · intro hfalse
    refine ⟨e, rfl, ?_⟩
    rintro span rfl
    cases hfalse

/-- Whether a test can fail is decided as checking does it. -/
theorem canFail_iff (condition : Option Expr) :
    CanFail condition ↔ condition.all Expr.isTrue = false := by
  cases condition with
  | none =>
      constructor
      · rintro ⟨_, h, -⟩
        cases h
      · intro h
        cases h
  | some e => exact canFail_some_iff e

/-- The edges of the control-flow graph. A return and a throw have none; a `break` leads behind the
innermost loop, and a `continue` to its test. -/
inductive Flow : Place → Place → Prop
  | block {body span rest} : Flow (.run (.block body span) :: rest) (body.map .run ++ rest)
  | empty {span rest} : Flow (.run (.empty span) :: rest) rest
  | locals {d span rest} : Flow (.run (.locals d span) :: rest) rest
  | expr {e span rest} : Flow (.run (.expr e span) :: rest) rest
  | yes {condition yes no span rest} :
      Flow (.run (.cond condition yes no span) :: rest) (.run yes :: rest)
  | no {condition yes no span rest} :
      Flow (.run (.cond condition yes (some no) span) :: rest) (.run no :: rest)
  | skip {condition yes span rest} : Flow (.run (.cond condition yes none span) :: rest) rest
  | loop {condition body span rest} :
      Flow (.run (.loop condition body span) :: rest) (.test (some condition) body :: rest)
  | doLoop {body condition span rest} :
      Flow (.run (.doLoop body condition span) :: rest)
        (.run body :: .test (some condition) body :: rest)
  | forLoop {init condition steps body span rest} :
      Flow (.run (.forLoop init condition steps body span) :: rest) (.test condition body :: rest)
  | again {condition body rest} :
      Flow (.test condition body :: rest) (.run body :: .test condition body :: rest)
  | done {condition body rest} (h : CanFail condition) : Flow (.test condition body :: rest) rest
  | leave {span condition body rest} (pending : List Stmt) :
      Flow (.run (.leave span) :: (pending.map .run ++ .test condition body :: rest)) rest
  | next {span condition body rest} (pending : List Stmt) :
      Flow (.run (.next span) :: (pending.map .run ++ .test condition body :: rest))
        (.test condition body :: rest)

/-- The edges that checking counts: besides those of the graph, there is one from the start of a
`do` loop to its test. -/
inductive CountedFlow : Place → Place → Prop
  | flow {p q} (h : Flow p q) : CountedFlow p q
  | untested {body condition span rest} :
      CountedFlow (.run (.doLoop body condition span) :: rest)
        (.test (some condition) body :: rest)

/-- A place can be reached from another one. -/
abbrev Reaches : Place → Place → Prop :=
  Relation.ReflTransGen Flow

/-- A place counts as one that can be reached from another one. -/
abbrev CountsAsReached : Place → Place → Prop :=
  Relation.ReflTransGen CountedFlow

theorem Reaches.counts {p q : Place} (h : Reaches p q) : CountsAsReached p q :=
  h.lift id fun _ _ => CountedFlow.flow

/-! ### What is found to be reached -/

mutual

theorem Stmt.reach_false : ∀ s : Stmt, s.reach false = ⟨false, false⟩
  | .block body _ => by rw [Stmt.reach, reachBlock_false body]
  | .empty _ | .locals _ _ | .expr _ _ | .ret _ _ | .throw _ _ | .next _ | .leave _ => by
      rw [Stmt.reach]
  | .cond _ yes none _ => by
      rw [Stmt.reach, Stmt.reach_false yes]
      rfl
  | .cond _ yes (some no) _ => by
      rw [Stmt.reach, Stmt.reach_false yes, Stmt.reach_false no]
      rfl
  | .loop _ body _ | .doLoop body _ _ | .forLoop _ _ _ body _ => by
      rw [Stmt.reach, Stmt.reach_false body]
      rfl

/-- Nothing is found to be reached from a place that is not. -/
theorem reachBlock_false : ∀ body : List Stmt, reachBlock false body = ⟨false, false⟩
  | [] => by rw [reachBlock]
  | s :: rest => by
      rw [reachBlock, Stmt.reach_false s, reachBlock_false rest]
      rfl

end

/-- What is found to be reached counts as reached, from places that still have to do some work
first. -/
structure Reach.Counted (r : Reach) (first : Place → Place) : Prop where
  ends : r.ends = true → ∀ rest, CountsAsReached (first rest) rest
  leaves : r.leaves = true → ∀ (pending : List Stmt) condition body rest,
    CountsAsReached (first (pending.map .run ++ .test condition body :: rest)) rest

namespace Reach.Counted

/-- A statement that is left at its end only. -/
theorem of_end {first : Place → Place} (h : ∀ rest, CountsAsReached (first rest) rest) :
    (Reach.mk true false).Counted first where
  ends _ := h
  leaves hleave := by cases hleave

/-- A statement that only leaves the loop around it. -/
theorem of_leave {first : Place → Place}
    (h : ∀ (pending : List Stmt) condition body rest,
      CountsAsReached (first (pending.map .run ++ .test condition body :: rest)) rest) :
    (Reach.mk false true).Counted first where
  ends hend := by cases hend
  leaves _ := h

/-- A statement that is not left. -/
theorem of_none (first : Place → Place) : (Reach.mk false false).Counted first where
  ends hend := by cases hend
  leaves hleave := by cases hleave

/-- What is reached from one of the places that come next. -/
theorem head {first second : Place → Place} {r : Reach}
    (hstep : ∀ rest, CountedFlow (first rest) (second rest)) (h : r.Counted second) :
    r.Counted first where
  ends hend rest := .head (hstep rest) (h.ends hend rest)
  leaves hleave pending condition body rest :=
    .head (hstep _) (h.leaves hleave pending condition body rest)

/-- Two ways through a statement. -/
theorem either {first : Place → Place} {r t : Reach} (hr : r.Counted first) (ht : t.Counted first) :
    (Reach.mk (r.ends || t.ends) (r.leaves || t.leaves)).Counted first where
  ends hend := by
    rcases Bool.or_eq_true_iff.1 hend with hend | hend
    · exact hr.ends hend
    · exact ht.ends hend
  leaves hleave := by
    rcases Bool.or_eq_true_iff.1 hleave with hleave | hleave
    · exact hr.leaves hleave
    · exact ht.leaves hleave

/-- Statements one after the other. -/
theorem seq {s : Stmt} {body : List Stmt} (hs : (s.reach true).Counted (.run s :: ·))
    (hbody : (reachBlock true body).Counted (body.map .run ++ ·)) :
    (reachBlock true (s :: body)).Counted ((s :: body).map .run ++ ·) := by
  rw [reachBlock]
  cases hends : (s.reach true).ends with
  | false =>
      -- Behind the first statement nothing is reached.
      rw [reachBlock_false, Bool.or_false]
      refine ⟨fun hend => (nomatch hend), fun hleave pending condition inner rest => ?_⟩
      have hfirst := hs.leaves hleave (body ++ pending) condition inner rest
      rw [List.map_append, List.append_assoc] at hfirst
      exact hfirst
  | true =>
      refine ⟨fun hend rest => ?_, fun hleave pending condition inner rest => ?_⟩
      · exact (hs.ends hends (body.map .run ++ rest)).trans (hbody.ends hend rest)
      · rcases Bool.or_eq_true_iff.1 hleave with hleave | hleave
        · have hfirst := hs.leaves hleave (body ++ pending) condition inner rest
          rw [List.map_append, List.append_assoc] at hfirst
          exact hfirst
        · exact (hs.ends hends _).trans (hbody.leaves hleave pending condition inner rest)

/-- A loop ends by its test, or by a `break` in its body. -/
theorem ofLoop {first : Place → Place} {condition : Option Expr} {body : Stmt}
    (htest : ∀ rest, CountedFlow (first rest) (.test condition body :: rest))
    (hbody : (body.reach true).Counted (.run body :: ·)) :
    (Reach.ofLoop true (condition.all Expr.isTrue) (body.reach true)).Counted first := by
  refine ⟨fun hend rest => .head (htest rest) ?_, fun hleave => nomatch hleave⟩
  rcases Bool.or_eq_true_iff.1 hend with hfail | hleave
  · have hcan : CanFail condition := (canFail_iff condition).2 (by simpa using hfail)
    exact .single (.flow (.done hcan))
  · exact .head (.flow .again) (hbody.leaves hleave [] condition body rest)

end Reach.Counted

mutual

/-- What is found to be reached in a statement counts as reached. -/
theorem Stmt.counted_reach : ∀ s : Stmt, (s.reach true).Counted (.run s :: ·)
  | .block body _ => by
      rw [Stmt.reach]
      exact .head (fun _ => .flow .block) (counted_reachBlock body)
  | .empty _ => by
      rw [Stmt.reach]
      exact .of_end fun _ => .single (.flow .empty)
  | .locals _ _ => by
      rw [Stmt.reach]
      exact .of_end fun _ => .single (.flow .locals)
  | .expr _ _ => by
      rw [Stmt.reach]
      exact .of_end fun _ => .single (.flow .expr)
  | .cond condition yes none span => by
      have hyes := Stmt.counted_reach yes
      have hskip : (Reach.mk true false).Counted (.run (.cond condition yes none span) :: ·) :=
        .of_end fun _ => .single (.flow .skip)
      have hboth := Reach.Counted.either (hyes.head fun _ => .flow .yes) hskip
      rw [Bool.or_false] at hboth
      rw [Stmt.reach]
      exact hboth
  | .cond _ yes (some no) _ => by
      have hyes := Stmt.counted_reach yes
      have hno := Stmt.counted_reach no
      rw [Stmt.reach]
      exact .either (hyes.head fun _ => .flow .yes) (hno.head fun _ => .flow .no)
  | .loop condition body _ => by
      rw [Stmt.reach]
      exact @Reach.Counted.ofLoop _ (some condition) body (fun _ => .flow .loop)
        (Stmt.counted_reach body)
  | .doLoop body condition _ => by
      rw [Stmt.reach]
      exact @Reach.Counted.ofLoop _ (some condition) body (fun _ => .untested)
        (Stmt.counted_reach body)
  | .forLoop _ condition _ body _ => by
      rw [Stmt.reach]
      exact .ofLoop (fun _ => .flow .forLoop) (Stmt.counted_reach body)
  | .ret _ _ | .throw _ _ | .next _ => by
      rw [Stmt.reach]
      exact .of_none _
  | .leave _ => by
      rw [Stmt.reach]
      exact .of_leave fun pending _ _ _ => .single (.flow (.leave pending))

theorem counted_reachBlock : ∀ body : List Stmt,
    (reachBlock true body).Counted (body.map .run ++ ·)
  | [] => by
      rw [reachBlock]
      exact .of_end fun _ => .refl
  | s :: rest => .seq (Stmt.counted_reach s) (counted_reachBlock rest)

end

/-! ### Nothing else counts as reached -/

/-- What is found to be reached from a place. -/
structure Outlook where
  /-- The end of the body. -/
  ends : Bool
  /-- The end of the body, from behind the innermost loop. -/
  leaves : Bool
  /-- The end of the body, from the test of the innermost loop. -/
  repeats : Bool

/-- What is found to be reached from a place; a statement inside a loop may always `continue`. -/
def outlook : Place → Outlook
  | [] => ⟨true, false, false⟩
  | .run s :: rest =>
      let r := s.reach true
      let o := outlook rest
      ⟨(r.ends && o.ends) || (r.leaves && o.leaves) || o.repeats, o.leaves, o.repeats⟩
  | .test condition body :: rest =>
      let o := outlook rest
      let ends := (!condition.all Expr.isTrue || (body.reach true).leaves) && o.ends
      ⟨ends, o.ends, ends⟩

/-- What is still to be done before the test of a loop does not change what is reached from
there. -/
theorem outlook_pending (pending : List Stmt) (rest : Place) :
    (outlook (pending.map .run ++ rest)).leaves = (outlook rest).leaves ∧
      (outlook (pending.map .run ++ rest)).repeats = (outlook rest).repeats := by
  induction pending with
  | nil => exact ⟨rfl, rfl⟩
  | cons s pending ih => exact ih

/-- What is found to be reached from a block. -/
theorem ends_outlook_block (body : List Stmt) {rest : Place}
    (h : (outlook (body.map .run ++ rest)).ends = true) :
    (reachBlock true body).ends = true ∧ (outlook rest).ends = true ∨
      (reachBlock true body).leaves = true ∧ (outlook rest).leaves = true ∨
        (outlook rest).repeats = true := by
  induction body with
  | nil => exact .inl ⟨rfl, h⟩
  | cons s body ih =>
      obtain ⟨hleaves, hrepeats⟩ := outlook_pending body rest
      simp only [List.map_cons, List.cons_append, outlook, hleaves, hrepeats, Bool.or_eq_true,
        Bool.and_eq_true] at h
      rw [reachBlock]
      rcases h with (⟨hends, h⟩ | ⟨hleave, h⟩) | h
      · rw [hends]
        rcases ih h with h | ⟨hleave, h⟩ | h
        · exact .inl h
        · exact .inr (.inl ⟨Bool.or_eq_true_iff.2 (.inr hleave), h⟩)
        · exact .inr (.inr h)
      · exact .inr (.inl ⟨Bool.or_eq_true_iff.2 (.inl hleave), h⟩)
      · exact .inr (.inr h)

theorem ends_outlook_run_iff (s : Stmt) (rest : Place) :
    (outlook (.run s :: rest)).ends = true ↔
      (s.reach true).ends = true ∧ (outlook rest).ends = true ∨
        (s.reach true).leaves = true ∧ (outlook rest).leaves = true ∨
          (outlook rest).repeats = true := by
  simp only [outlook, Bool.or_eq_true, Bool.and_eq_true, or_assoc]

theorem ends_outlook_test_iff (condition : Option Expr) (body : Stmt) (rest : Place) :
    (outlook (.test condition body :: rest)).ends = true ↔
      (Reach.ofLoop true (condition.all Expr.isTrue) (body.reach true)).ends = true ∧
        (outlook rest).ends = true := by
  simp only [outlook, Reach.ofLoop, Bool.true_and, Bool.and_eq_true]

/-- A round of a loop leads to nothing that its test does not lead to. -/
theorem ends_outlook_round {condition : Option Expr} {body : Stmt} {rest : Place}
    (h : (outlook (.run body :: .test condition body :: rest)).ends = true) :
    (outlook (.test condition body :: rest)).ends = true := by
  rcases (ends_outlook_run_iff _ _).1 h with ⟨-, h⟩ | ⟨hleave, h⟩ | h
  · exact h
  · rw [ends_outlook_test_iff]
    exact ⟨Bool.or_eq_true_iff.2 (.inr hleave), h⟩
  · exact h

/-- Nothing is found to be reached from the end of an edge without being found so from its start. -/
theorem ends_outlook_of_countedFlow {p q : Place} (h : CountedFlow p q)
    (hq : (outlook q).ends = true) : (outlook p).ends = true := by
  cases h with
  | untested =>
      rw [ends_outlook_run_iff, Stmt.reach]
      exact .inl ((ends_outlook_test_iff _ _ _).1 hq)
  | flow h =>
      cases h with
      | block =>
          rw [ends_outlook_run_iff, Stmt.reach]
          exact ends_outlook_block _ hq
      | empty | locals | expr =>
          rw [ends_outlook_run_iff, Stmt.reach]
          exact .inl ⟨rfl, hq⟩
      | @yes _ _ no =>
          rw [ends_outlook_run_iff] at hq ⊢
          cases no with
          | none =>
              rw [Stmt.reach]
              refine hq.imp_left fun h => ?_
              exact ⟨Bool.or_eq_true_iff.2 (.inl h.1), h.2⟩
          | some no =>
              rw [Stmt.reach]
              refine hq.imp (fun h => ?_) (.imp_left fun h => ?_)
              · exact ⟨Bool.or_eq_true_iff.2 (.inl h.1), h.2⟩
              · exact ⟨Bool.or_eq_true_iff.2 (.inl h.1), h.2⟩
      | no =>
          rw [ends_outlook_run_iff] at hq ⊢
          rw [Stmt.reach]
          refine hq.imp (fun h => ?_) (.imp_left fun h => ?_)
          · exact ⟨Bool.or_eq_true_iff.2 (.inr h.1), h.2⟩
          · exact ⟨Bool.or_eq_true_iff.2 (.inr h.1), h.2⟩
      | skip =>
          rw [ends_outlook_run_iff, Stmt.reach]
          exact .inl ⟨Bool.or_true _, hq⟩
      | loop | forLoop =>
          rw [ends_outlook_run_iff, Stmt.reach]
          exact .inl ((ends_outlook_test_iff _ _ _).1 hq)
      | doLoop =>
          rw [ends_outlook_run_iff, Stmt.reach]
          exact .inl ((ends_outlook_test_iff _ _ _).1 (ends_outlook_round hq))
      | again => exact ends_outlook_round hq
      | done hfail =>
          rw [canFail_iff] at hfail
          rw [ends_outlook_test_iff, Reach.ofLoop, hfail]
          exact ⟨rfl, hq⟩
      | @leave _ condition body _ pending =>
          have hleaves := (outlook_pending pending (.test condition body :: q)).1
          rw [ends_outlook_run_iff, Stmt.reach, hleaves]
          exact .inr (.inl ⟨rfl, hq⟩)
      | @next _ condition body rest pending =>
          have hrepeats := (outlook_pending pending (.test condition body :: rest)).2
          rw [ends_outlook_run_iff, hrepeats]
          exact .inr (.inr hq)

theorem ends_outlook_of_countsAsReached {p : Place} (h : CountsAsReached p []) :
    (outlook p).ends = true := by
  induction h using Relation.ReflTransGen.head_induction_on with
  | refl => rfl
  | head hflow _ ih => exact ends_outlook_of_countedFlow hflow ih

/-- The end of a body is found to be reached if it counts as reached. -/
theorem ends_reachBlock_iff (body : List Stmt) :
    (reachBlock true body).ends = true ↔ CountsAsReached (body.map .run) [] := by
  have hempty : body.map Task.run = body.map .run ++ [] := (List.append_nil _).symm
  rw [hempty]
  constructor
  · intro hends
    exact (counted_reachBlock body).ends hends []
  · intro h
    rcases ends_outlook_block body (ends_outlook_of_countsAsReached h) with h | ⟨-, h⟩ | h
    · exact h.1
    · cases h
    · cases h

/-- Where the graph leads to the test of every `do` loop that it leads to, nothing more counts as
reached than what is. -/
theorem reaches_iff_countsAsReached {p q : Place}
    (htests : ∀ body condition span rest, Reaches p (.run (.doLoop body condition span) :: rest) →
      Reaches p (.test (some condition) body :: rest)) : Reaches p q ↔ CountsAsReached p q := by
  refine ⟨Reaches.counts, fun h => ?_⟩
  induction h with
  | refl => exact .refl
  | tail _ hflow ih =>
      cases hflow with
      | flow hflow => exact ih.tail hflow
      | untested => exact htests _ _ _ _ ih

end Tree

namespace Typing

/-- What is reported about the statements of a method. -/
def bodyReports (context : Context) (m : Tree.Method) : List Report :=
  let check : Check Core.Stmt := inScope do
    declareParams (context.method.paramNames.zip context.method.params)
    checkStmt false (.block m.body.body m.body.span)
  (check context ⟨.empty, .empty⟩).reports

/-- The report of a missing return, at the name of the method. -/
def missingReturn (context : Context) (m : Tree.Method) : Report :=
  ⟨.missingReturn (context.cls.describe context.method), m.name.span⟩

theorem reports_bind_apply {α β : Type} (c : Check α) (f : α → Check β) (context : Context)
    (v : Variables) : ((c >>= f) context v).reports =
      (c context v).reports ++ (f (c context v).value.1 context (c context v).value.2).reports :=
  rfl

/-- What is reported about a method: first what is wrong with its statements, and then, if it has a
result and its end is found to be reached, the missing return. -/
theorem reports_checkMethod (context : Context) (m : Tree.Method) :
    (checkMethod context m).reports = bodyReports context m ++
      if (Tree.reachBlock true m.body.body).ends && context.method.result != .void then
        [missingReturn context m]
      else [] := by
  have hmethod : (checkMethod context m).reports =
      (checkBody m context ⟨.empty, .empty⟩).reports ++ [] := rfl
  have hread : ((read : Check Context) context ⟨.empty, .empty⟩).reports = [] := rfl
  have hcontext : ((read : Check Context) context ⟨.empty, .empty⟩).value.1 = context := rfl
  rw [hmethod, List.append_nil, checkBody, reports_bind_apply, reports_bind_apply, hread,
    List.nil_append, hcontext]
  refine congrArg (bodyReports context m ++ ·) ?_
  split <;> rfl

end Typing

/-- The place where the body of a method begins. -/
def Tree.Method.start (m : Tree.Method) : Tree.Place :=
  m.body.body.map .run

/-- Of a method with a result and without other errors, a missing return is reported if the end of
its body counts as reached. It is reported whenever the end can be reached in the control-flow
graph; and if the tests of all its `do` loops that can be reached can be reached as well, only
then. -/
theorem missingReturn_reported_iff {context : Typing.Context} {m : Tree.Method}
    (hresult : context.method.result ≠ .void) (hbody : Typing.bodyReports context m = []) :
    (Typing.missingReturn context m ∈ (Typing.checkMethod context m).reports ↔
        Tree.CountsAsReached m.start []) ∧
      (Tree.Reaches m.start [] →
        Typing.missingReturn context m ∈ (Typing.checkMethod context m).reports) ∧
      ((∀ body condition span rest,
          Tree.Reaches m.start (.run (.doLoop body condition span) :: rest) →
            Tree.Reaches m.start (.test (some condition) body :: rest)) →
        (Typing.missingReturn context m ∈ (Typing.checkMethod context m).reports ↔
          Tree.Reaches m.start [])) := by
  have hcounted : Typing.missingReturn context m ∈ (Typing.checkMethod context m).reports ↔
      Tree.CountsAsReached m.start [] := by
    rw [Typing.reports_checkMethod, hbody, List.nil_append, Tree.Method.start,
      ← Tree.ends_reachBlock_iff]
    cases hends : (Tree.reachBlock true m.body.body).ends with
    | false => simp
    | true => simp [hresult]
  refine ⟨hcounted, fun h => hcounted.2 h.counts, fun htests => ?_⟩
  rw [hcounted, Tree.reaches_iff_countsAsReached htests]

/-! ### Two `do` loops -/

section

open Scriptlet.Tree Scriptlet.Typing

/-- The method `int F()` of a class `C`, with a loop as its body. -/
def loopMethod (loop : Stmt) : Tree.Method :=
  ⟨.none, ⟨.basic .int, ⟨10, 13⟩⟩, ⟨"F", ⟨14, 15⟩⟩, [], ⟨[loop], ⟨18, 53⟩⟩, ⟨10, 53⟩⟩

def loopContext : Typing.Context :=
  let method : MethodSignature := ⟨"F", false, false, [], [], .int⟩
  let cls : ClassSignature := ⟨"C", [method]⟩
  ⟨⟨⟨["C"], false⟩, [cls]⟩, 0, cls, method⟩

/-- The literal `false`. -/
def no : Tree.Expr :=
  .literal (.bool false) ⟨44, 49⟩

/-- `do ; while (false);` -/
def idleLoop : Stmt :=
  .doLoop (.empty ⟨23, 24⟩) no ⟨20, 51⟩

/-- Every place of the loop: its start, its body, its test and its end. -/
theorem places_idleLoop {p : Place} (h : Reaches (loopMethod idleLoop).start p) :
    p ∈ [(loopMethod idleLoop).start, [.run (.empty ⟨23, 24⟩), .test (some no) (.empty ⟨23, 24⟩)],
      [.test (some no) (.empty ⟨23, 24⟩)], []] := by
  induction h with
  | refl => exact List.mem_cons_self
  | tail _ hflow ih =>
      simp only [List.mem_cons, List.not_mem_nil, or_false] at ih
      rcases ih with rfl | rfl | rfl | rfl
      · cases hflow
        simp [idleLoop]
      · cases hflow
        simp
      · cases hflow <;> simp
      · cases hflow

/-- A loop whose test is reached. -/
theorem missingReturn_reported_idleLoop :
    Typing.missingReturn loopContext (loopMethod idleLoop) ∈
        (Typing.checkMethod loopContext (loopMethod idleLoop)).reports ↔
      Reaches (loopMethod idleLoop).start [] := by
  have hreached := @missingReturn_reported_iff loopContext (loopMethod idleLoop) (by decide) rfl
  refine hreached.2.2 fun body condition span rest h => ?_
  have hplace := places_idleLoop h
  simp only [List.mem_cons, List.not_mem_nil, or_false] at hplace
  rcases hplace with heq | heq | heq | heq
  · cases heq
    exact .tail (.single .doLoop) .empty
  · cases heq
  · cases heq
  · cases heq

/-- `do { return 1; } while (false);` -/
def returningLoop : Stmt :=
  .doLoop (.block [.ret (some (.literal (.int 1 false) ⟨32, 33⟩)) ⟨25, 34⟩] ⟨23, 36⟩) no ⟨20, 51⟩

theorem places_returningLoop {p : Place} (h : Reaches (loopMethod returningLoop).start p) :
    p ≠ [] := by
  have hplaces : p = (loopMethod returningLoop).start ∨
      (∃ body : Stmt, p = [.run body, .test (some no) body] ∧
        ∃ e span block, body = .block [.ret (some e) span] block) ∨
      ∃ e span rest, p = .run (.ret (some e) span) :: rest := by
    induction h with
    | refl => exact .inl rfl
    | tail _ hflow ih =>
        rcases ih with rfl | ⟨_, rfl, e, span, block, rfl⟩ | ⟨e, span, rest, rfl⟩
        · cases hflow
          exact .inr (.inl ⟨_, rfl, _, _, _, rfl⟩)
        · cases hflow
          exact .inr (.inr ⟨e, span, _, rfl⟩)
        · cases hflow
  rcases hplaces with rfl | ⟨_, rfl, -⟩ | ⟨_, _, _, rfl⟩
  · exact List.cons_ne_nil _ _
  · exact List.cons_ne_nil _ _
  · exact List.cons_ne_nil _ _

/-- The loop returns in its first round, and its test is reached on no path: its end cannot be
reached, and yet a missing return is reported. -/
theorem missingReturn_reported_returningLoop :
    loopContext.method.result ≠ .void ∧
      bodyReports loopContext (loopMethod returningLoop) = [] ∧
      missingReturn loopContext (loopMethod returningLoop) ∈
        (checkMethod loopContext (loopMethod returningLoop)).reports ∧
      ¬Reaches (loopMethod returningLoop).start [] := by
  refine ⟨by decide, rfl, ?_, fun h => places_returningLoop h rfl⟩
  rw [reports_checkMethod]
  exact List.mem_append_right _ List.mem_cons_self

end

end Scriptlet
