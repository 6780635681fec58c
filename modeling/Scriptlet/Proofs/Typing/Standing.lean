import Scriptlet.Proofs.Parser.Integers
import Scriptlet.Typing.Source

namespace Scriptlet

/-!
# Errors that do not depend on their surroundings

An error that checking an expression reports in every context is reported about every program in
which the expression is an operand or stands on its own, whatever else is wrong with the program.
-/

/-- The expressions that are checked whenever an expression is: the expression itself, and what is
an operand in it. A literal behind a minus is checked together with the minus. -/
inductive Tree.Expr.Exposes : Tree.Expr → Tree.Expr → Prop
  | self (e : Tree.Expr) : Exposes e e
  | unary {e operand : Tree.Expr} {sign : Tree.Sign} {span : Text.Span}
      (hplain : Tree.Expr.integer? (.unary sign operand span) = none) (h : Exposes operand e) :
      Exposes (.unary sign operand span) e
  | left {e left right : Tree.Expr} (op : Tree.Operator) (span : Text.Span) (h : Exposes left e) :
      Exposes (.binary op left right span) e
  | right {e left right : Tree.Expr} (op : Tree.Operator) (span : Text.Span)
      (h : Exposes right e) : Exposes (.binary op left right span) e
  | condition {e condition yes no : Tree.Expr} (span : Text.Span) (h : Exposes condition e) :
      Exposes (.conditional condition yes no span) e
  | yes {e condition yes no : Tree.Expr} (span : Text.Span) (h : Exposes yes e) :
      Exposes (.conditional condition yes no span) e
  | no {e condition yes no : Tree.Expr} (span : Text.Span) (h : Exposes no e) :
      Exposes (.conditional condition yes no span) e
  | cast {e operand : Tree.Expr} (type : Tree.TypeRef) (span : Text.Span) (h : Exposes operand e) :
      Exposes (.cast type operand span) e

namespace Typing

/-- A check reports an error whatever the context and the variables are. -/
def Reports {α : Type} (c : Check α) (r : Report) : Prop :=
  ∀ ctx v, r ∈ (c ctx v).reports

namespace Reports

variable {α β : Type} {c : Check α} {f : α → Check β} {r : Report}

theorem here (h : Reports c r) : Reports (c >>= f) r :=
  fun ctx v => List.mem_append_left _ (h ctx v)

theorem later (h : ∀ a, Reports (f a) r) : Reports (c >>= f) r :=
  fun ctx v => List.mem_append_right _ (h (c ctx v).value.1 ctx (c ctx v).value.2)

theorem inScope (h : Reports c r) : Reports (inScope c) r :=
  later fun _ => here h

theorem mapM {f : α → Check β} {xs : List α} {x : α} (hx : x ∈ xs) (h : Reports (f x) r) :
    Reports (xs.mapM f) r := by
  induction xs with
  | nil => exact absurd hx List.not_mem_nil
  | cons y ys ih =>
      rw [List.mapM_cons]
      obtain rfl | hx := List.mem_cons.1 hx
      · exact here h
      · exact later fun _ => here (ih hx)

theorem wrong (e : SemanticError) (span : Text.Span) : Reports (wrong e span) ⟨e, span⟩ :=
  fun _ _ => List.mem_singleton_self _

end Reports

section

variable {r : Report} {e : Tree.Expr}

/-! ### Expressions -/

/-- A sign whose operand is no literal that belongs to it checks its operand. -/
theorem reports_unary {sign : Tree.Sign} {operand : Tree.Expr} {span : Text.Span}
    (hplain : Tree.Expr.integer? (.unary sign operand span) = none)
    (h : Reports (checkExpr operand) r) : Reports (checkExpr (.unary sign operand span)) r := by
  cases sign with
  | plus =>
      rw [checkExpr]
      exact .here h
  | strict op =>
      rw [checkExpr]
      · exact .here h
      · rintro value long s rfl rfl
        cases hplain

/-- Operators check all their operands. -/
theorem reports_of_exposes {root : Tree.Expr} (h : root.Exposes e) (he : Reports (checkExpr e) r) :
    Reports (checkExpr root) r := by
  induction h with
  | self => exact he
  | unary hplain _ ih => exact reports_unary hplain (ih he)
  | left op span _ ih => rcases op with _ | _ | op <;> rw [checkExpr] <;> exact .here (ih he)
  | right op span _ ih =>
      rcases op with _ | _ | op <;> rw [checkExpr] <;> exact .later fun _ => .here (ih he)
  | condition span _ ih =>
      rw [checkExpr]
      exact .here (.here (ih he))
  | yes span _ ih =>
      rw [checkExpr]
      exact .later fun _ => .here (ih he)
  | no span _ ih =>
      rw [checkExpr]
      exact .later fun _ => .later fun _ => .here (ih he)
  | cast type span _ ih =>
      rw [checkExpr]
      exact .later fun _ => .here (ih he)

theorem reports_as (h : Reports (checkExpr e) r) (t : DataType) : Reports ((part e).as t) r :=
  .here h

/-! ### Statements -/

theorem reports_checkValue {d : Tree.Declarator} (h : Reports (checkExpr e) r)
    (he : d.value = some e) (type : Option DataType) : Reports (checkValue type d) r := by
  unfold checkValue
  rw [he]
  cases type with
  | none => exact .here h
  | some t => exact .here (reports_as h t)

theorem reports_checkDeclarators {ds : List Tree.Declarator} (h : Reports (checkExpr e) r)
    (he : e ∈ ds.flatMap fun d => d.value.toList) (type : Option DataType) :
    Reports (checkDeclarators type ds) r := by
  induction ds with
  | nil => exact absurd he List.not_mem_nil
  | cons d ds ih =>
      rw [List.flatMap_cons, List.mem_append] at he
      obtain he | he := he
      · exact .here (reports_checkValue h (Option.mem_toList.1 he) type)
      · exact .later fun _ => .later fun _ => .here (ih he)

theorem reports_checkLocals {l : Tree.LocalDecl} (h : Reports (checkExpr e) r)
    (he : e ∈ l.expressions) : Reports (checkLocals l) r := by
  refine .later fun type => ?_
  dsimp only
  split
  · exact .later fun _ => reports_checkDeclarators h he _
  · exact reports_checkDeclarators h he _

theorem reports_checkAction (h : Reports (checkExpr e) r) : Reports (checkAction e) r := by
  unfold checkAction
  split
  · exact .here h
  · exact .later fun _ => .here h

theorem reports_checkReturn (h : Reports (checkExpr e) r) (span : Text.Span) :
    Reports (checkReturn (some e) span) r := by
  refine .later fun ctx => ?_
  split
  · next heq _ =>
      cases heq
      exact .later fun _ => .here h
  · next heq _ =>
      cases heq
      exact .here (reports_as h _)
  · next heq _ => cases heq
  · next heq _ => cases heq

theorem reports_checkInit {init : Tree.ForInit} (h : Reports (checkExpr e) r)
    (he : e ∈ init.expressions) : Reports (checkInit init) r := by
  cases init with
  | nothing => exact absurd he List.not_mem_nil
  | locals l => exact reports_checkLocals h he
  | exprs es => exact .mapM he (reports_checkAction h)

mutual

/-- What checking an expression always reports is reported of the statement that has it. -/
theorem reports_checkStmt : ∀ (s : Tree.Stmt) (inLoop : Bool), Reports (checkExpr e) r →
    e ∈ s.expressions → Reports (checkStmt inLoop s) r
  | .block body span, inLoop, h, he => by
      rw [Tree.Stmt.expressions] at he
      rw [checkStmt]
      exact .inScope (.here (reports_checkBlock body inLoop h he))
  | .empty span, inLoop, h, he | .leave span, inLoop, h, he | .next span, inLoop, h, he => by
      rw [Tree.Stmt.expressions] at he
      exact absurd he List.not_mem_nil
  | .locals d span, inLoop, h, he => by
      rw [Tree.Stmt.expressions] at he
      rw [checkStmt]
      exact .here (reports_checkLocals h he)
  | .expr x span, inLoop, h, he => by
      rw [Tree.Stmt.expressions, List.mem_singleton] at he
      rw [checkStmt, ← he]
      exact reports_checkAction h
  | .cond condition yes none span, inLoop, h, he => by
      rw [Tree.Stmt.expressions, List.mem_cons] at he
      rw [checkStmt]
      obtain rfl | he := he
      · exact .here (reports_as h _)
      · exact .later fun _ => .here (.inScope (reports_checkStmt yes inLoop h he))
  | .cond condition yes (some no) span, inLoop, h, he => by
      rw [Tree.Stmt.expressions, List.cons_append, List.mem_cons, List.mem_append] at he
      rw [checkStmt]
      obtain rfl | he | he := he
      · exact .here (reports_as h _)
      · exact .later fun _ => .here (.inScope (reports_checkStmt yes inLoop h he))
      · exact .later fun _ => .later fun _ => .here (.inScope (reports_checkStmt no inLoop h he))
  | .loop condition body span, inLoop, h, he => by
      rw [Tree.Stmt.expressions, List.mem_cons] at he
      rw [checkStmt]
      obtain rfl | he := he
      · exact .here (reports_as h _)
      · exact .later fun _ => .here (.inScope (reports_checkStmt body true h he))
  | .doLoop body condition span, inLoop, h, he => by
      rw [Tree.Stmt.expressions, List.mem_append, List.mem_singleton] at he
      rw [checkStmt]
      obtain he | rfl := he
      · exact .here (.inScope (reports_checkStmt body true h he))
      · exact .later fun _ => .here (reports_as h _)
  | .forLoop init condition steps body span, inLoop, h, he => by
      rw [Tree.Stmt.expressions, List.mem_append, List.mem_append, List.mem_append] at he
      rw [checkStmt]
      refine .inScope ?_
      obtain ((he | he) | he) | he := he
      · exact .here (reports_checkInit h he)
      · refine .later fun _ => .here ?_
        rw [Option.mem_toList.1 he, Option.mapM_some, map_eq_pure_bind]
        exact .here (reports_as h _)
      · have hsteps := Reports.mapM he (reports_checkAction h)
        exact .later fun _ => .later fun _ => .later fun _ => .here hsteps
      · exact .later fun _ => .later fun _ => .here (.inScope (reports_checkStmt body true h he))
  | .ret value span, inLoop, h, he => by
      rw [Tree.Stmt.expressions, Option.mem_toList] at he
      rw [checkStmt, he]
      exact reports_checkReturn h span
  | .throw x span, inLoop, h, he => by
      rw [Tree.Stmt.expressions, List.mem_singleton] at he
      rw [checkStmt, ← he]
      exact .here h

theorem reports_checkBlock : ∀ (body : List Tree.Stmt) (inLoop : Bool), Reports (checkExpr e) r →
    e ∈ Tree.blockExpressions body → Reports (checkBlock inLoop body) r
  | [], inLoop, h, he => by
      rw [Tree.blockExpressions] at he
      exact absurd he List.not_mem_nil
  | s :: rest, inLoop, h, he => by
      rw [Tree.blockExpressions, List.mem_append] at he
      rw [checkBlock]
      obtain he | he := he
      · exact .here (reports_checkStmt s inLoop h he)
      · exact .later fun _ => .here (reports_checkBlock rest inLoop h he)

end

theorem reports_checkBody {m : Tree.Method} (h : Reports (checkExpr e) r)
    (he : e ∈ m.expressions) : Reports (checkBody m) r := by
  refine .later fun ctx => .here (.inScope (.later fun _ => ?_))
  rw [checkStmt]
  exact .inScope (.here (reports_checkBlock _ false h he))

end

end Typing

/-! ### Programs -/

namespace Reporting

variable {α β : Type} {r : Report}

theorem mem_reports_mapM {f : α → Reporting β} {xs : List α} {x : α} (hx : x ∈ xs)
    (h : r ∈ (f x).reports) : r ∈ (xs.mapM f).reports := by
  induction xs with
  | nil => exact absurd hx List.not_mem_nil
  | cons y ys ih =>
      rw [List.mapM_cons, reports_bind, reports_bind]
      obtain rfl | hx := List.mem_cons.1 hx
      · exact List.mem_append_left _ h
      · exact List.mem_append_right _ (List.mem_append_left _ (ih hx))

theorem value_mapM (f : α → Reporting β) (xs : List α) :
    (xs.mapM f).value = xs.map fun x => (f x).value := by
  induction xs with
  | nil => rfl
  | cons x xs ih => rw [List.mapM_cons, value_bind, value_bind, ih, value_pure, List.map_cons]

end Reporting

/-- In step with a list that is no shorter, each element of a list has a partner. -/
theorem exists_mem_zip {α β : Type} {as : List α} {bs : List β} {b : β} (hb : b ∈ bs)
    (hlength : as.length = bs.length) : ∃ a, (a, b) ∈ as.zip bs := by
  have hmap : b ∈ (as.zip bs).map Prod.snd := by
    rw [List.map_snd_zip (Nat.le_of_eq hlength.symm)]
    exact hb
  obtain ⟨⟨a, b⟩, hmem, rfl⟩ := List.mem_map.1 hmap
  exact ⟨a, hmem⟩

namespace Signatures

theorem length_ofMethods (names : TypeNames) (cls : String) (before : List String)
    (ms : List Tree.Method) : (ofMethods names cls before ms).value.length = ms.length := by
  induction ms generalizing before with
  | nil => rfl
  | cons m ms ih => exact congrArg (· + 1) (ih _)

/-- There is a signature for every class and every method, also of a wrong program. -/
theorem classes_ofSource (s : Tree.Source) :
    (ofSource s).value.classes.length = s.classes.length ∧
      ∀ cls ∈ (ofSource s).value.classes.zip s.classes,
        cls.1.methods.length = cls.2.methods.length := by
  have hvalue : (ofSource s).value.classes = s.classes.map fun c =>
      ⟨c.name.name, (ofMethods (.ofSource s) c.name.name [] c.methods).value⟩ :=
    Reporting.value_mapM _ s.classes
  rw [hvalue]
  refine ⟨List.length_map _, fun cls hcls => ?_⟩
  rw [← List.map_prod_right_eq_zip] at hcls
  obtain ⟨c, -, rfl⟩ := List.mem_map.1 hcls
  exact length_ofMethods _ _ _ _

end Signatures

namespace Typing

/-- What checking an expression always reports is reported of every program that has it. -/
theorem mem_reports_checkSource {s : Tree.Source} {e : Tree.Expr} {r : Report}
    (h : Reports (checkExpr e) r) (he : e ∈ s.expressions) : r ∈ (checkSource s).reports := by
  obtain ⟨hclasses, hmethods⟩ := Signatures.classes_ofSource s
  obtain ⟨c, hc, he⟩ := List.mem_flatMap.1 he
  obtain ⟨m, hm, he⟩ := List.mem_flatMap.1 he
  obtain ⟨cls, hcls⟩ := exists_mem_zip hc hclasses
  obtain ⟨sig, hsig⟩ := exists_mem_zip hm (hmethods _ hcls)
  obtain ⟨i, hi⟩ := List.mem_iff_getElem?.1 hcls
  refine List.mem_append_right _ (Reporting.mem_reports_mapM
    (List.mk_mem_zipIdx_iff_getElem?.2 hi) ?_)
  refine List.mem_append_left _ (Reporting.mem_reports_mapM hsig ?_)
  exact List.mem_append_left _ (reports_checkBody h he _ _)

end Typing

end Scriptlet
