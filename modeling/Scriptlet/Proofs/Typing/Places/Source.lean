import Scriptlet.Proofs.Typing.Places.Expr
import Scriptlet.Typing.Source

namespace Scriptlet

/-!
# Places of errors in programs
-/

open Text (Span)
open Scriptlet.Tree (Node)

namespace Typing

/-! ### Statements -/

section

variable {source : List Char} {span : Span}

theorem fits_statedType {t : Tree.TypeRef} (h : t.span.Fits source) :
    Fits source (statedType t) := by
  refine .bind (fits_resolve? h) fun a => ?_
  split
  · exact .bind (.report h _) fun _ => .pure source _
  · exact .pure source _
  · exact .pure source _

theorem fits_inferredType (h : span.Fits source) (t : StaticType) :
    Fits source (inferredType t span) := by
  unfold inferredType
  split
  · exact .bind (.report h _) fun _ => .pure source _
  · exact .bind (.report h _) fun _ => .pure source _
  · exact .pure source _
  · exact .pure source _

theorem fits_checkValue {d : Tree.Declarator} (h : ∀ n ∈ d.parts, n.Sound source)
    (type : Option DataType) : Fits source (checkValue type d) := by
  obtain ⟨hname, hvalue⟩ := List.forall_mem_cons.1 h
  unfold checkValue
  split
  · next e he =>
      rw [he] at hvalue
      exact .bind (fits_as_part (List.forall_mem_singleton.1 hvalue) _) fun _ => .pure source _
  · exact .pure source _
  · next e he =>
      rw [he] at hvalue
      have he := List.forall_mem_singleton.1 hvalue
      refine .bind (fits_checkExpr e he) fun v => ?_
      exact .bind (fits_inferredType he.fits _) fun _ => .pure source _
  · exact .bind (.report hname.fits _) fun _ => .pure source _

theorem fits_checkDeclarators {ds : List Tree.Declarator}
    (h : ∀ n ∈ ds.flatMap Tree.Declarator.parts, n.Sound source) (type : Option DataType) :
    Fits source (checkDeclarators type ds) := by
  induction ds with
  | nil => exact .pure source _
  | cons d ds ih =>
      obtain ⟨hd, hds⟩ := List.forall_mem_append.1 h
      refine .bind (fits_checkValue hd type) fun (t, e) => ?_
      refine .bind (fits_declare (hd _ List.mem_cons_self).fits t) fun _ => ?_
      exact .bind (ih hds) fun _ => .pure source _

theorem fits_checkLocals {l : Tree.LocalDecl} (h : ∀ n ∈ l.parts, n.Sound source) :
    Fits source (checkLocals l) := by
  obtain ⟨htype, hds⟩ := List.forall_mem_append.1 h
  have hstated : Fits source (l.type.mapM statedType) := by
    cases ht : l.type with
    | none => exact .pure source _
    | some t =>
        rw [ht] at htype
        rw [Option.mapM_some, map_eq_pure_bind]
        have htype := fits_statedType (List.forall_mem_singleton.1 htype).fits
        exact .bind htype fun _ => .pure source _
  refine .bind hstated fun type => ?_
  dsimp only
  split
  · next d second rest hlist =>
      rw [hlist] at hds ⊢
      obtain ⟨-, hds'⟩ := List.forall_mem_append.1 hds
      exact .bind (.report (hds' _ List.mem_cons_self).fits _) fun _ => fits_checkDeclarators hds _
  · exact fits_checkDeclarators hds _

theorem fits_checkAction {e : Tree.Expr} (h : (Node.expr e).Sound source) :
    Fits source (checkAction e) := by
  have haction : Fits source (do
      let t ← checkExpr e
      return Core.Stmt.eval t.expr (t.type != .of .void)) :=
    .bind (fits_checkExpr e h) fun _ => .pure source _
  unfold checkAction
  split
  · exact haction
  · exact .bind (.report h.fits _) fun _ => haction

theorem fits_checkReturn {value : Option Tree.Expr}
    (h : ∀ n ∈ value.toList.map Node.expr, n.Sound source) (hspan : span.Fits source) :
    Fits source (checkReturn value span) := by
  refine .bind (.read source) fun ctx => ?_
  split
  · exact .bind (.report hspan _) fun _ =>
      .bind (fits_checkExpr _ (List.forall_mem_singleton.1 h)) fun _ => .pure source _
  · exact .bind (fits_as_part (List.forall_mem_singleton.1 h) _) fun _ => .pure source _
  · exact .pure source _
  · exact .bind (.report hspan _) fun _ => .pure source _

theorem fits_checkThrow {e : Tree.Expr} (h : (Node.expr e).Sound source) :
    Fits source (checkThrow e) := by
  refine .bind (fits_checkExpr e h) fun t => ?_
  split
  · exact .pure source _
  · exact .bind (.report h.fits _) fun _ => .pure source _

theorem fits_checkExit (h : span.Fits source) (inLoop : Bool) (s : Core.Stmt) :
    Fits source (checkExit inLoop s span) := by
  unfold checkExit
  split
  · exact .pure source _
  · exact .bind (.report h _) fun _ => .pure source _

theorem fits_checkActions {es : List Tree.Expr} (h : ∀ n ∈ es.map Node.expr, n.Sound source) :
    Fits source (es.mapM checkAction) :=
  .mapM fun e he => fits_checkAction (List.forall_mem_map.1 h e he)

theorem fits_checkInit {init : Tree.ForInit} (h : ∀ n ∈ init.parts, n.Sound source) :
    Fits source (checkInit init) := by
  cases init with
  | nothing => exact .pure source _
  | locals l => exact fits_checkLocals h
  | exprs es => exact fits_checkActions h

mutual

theorem fits_checkStmt : ∀ (s : Tree.Stmt) (inLoop : Bool), (Node.stmt s).Sound source →
    Fits source (checkStmt inLoop s)
  | .block body span, inLoop, h => by
      rw [checkStmt]
      refine .inScope (.bind (fits_checkBlock body inLoop ?_) fun _ => .pure source _)
      exact List.forall_mem_map.1 h.parts
  | .empty span, inLoop, h => by
      rw [checkStmt]
      exact .pure source _
  | .locals d span, inLoop, h => by
      rw [checkStmt]
      exact .bind (fits_checkLocals h.parts) fun _ => .pure source _
  | .expr e span, inLoop, h => by
      rw [checkStmt]
      exact fits_checkAction (List.forall_mem_singleton.1 h.parts)
  | .cond condition yes none span, inLoop, h => by
      obtain ⟨hc, hyes⟩ := forall_mem_pair.1 h.parts
      rw [checkStmt]
      exact .bind (fits_as_part hc .bool) fun _ =>
        .bind (.inScope (fits_checkStmt yes inLoop hyes)) fun _ => .pure source _
  | .cond condition yes (some no) span, inLoop, h => by
      obtain ⟨hc, hbranches⟩ := List.forall_mem_cons.1 h.parts
      obtain ⟨hyes, hno⟩ := forall_mem_pair.1 hbranches
      rw [checkStmt]
      exact .bind (fits_as_part hc .bool) fun _ =>
        .bind (.inScope (fits_checkStmt yes inLoop hyes)) fun _ =>
          .bind (.inScope (fits_checkStmt no inLoop hno)) fun _ => .pure source _
  | .loop condition body span, inLoop, h => by
      obtain ⟨hc, hbody⟩ := forall_mem_pair.1 h.parts
      rw [checkStmt]
      exact .bind (fits_as_part hc .bool) fun _ =>
        .bind (.inScope (fits_checkStmt body true hbody)) fun _ => .pure source _
  | .doLoop body condition span, inLoop, h => by
      obtain ⟨hbody, hc⟩ := forall_mem_pair.1 h.parts
      rw [checkStmt]
      exact .bind (.inScope (fits_checkStmt body true hbody)) fun _ =>
        .bind (fits_as_part hc .bool) fun _ => .pure source _
  | .forLoop init condition steps body span, inLoop, h => by
      obtain ⟨hfront, hbody⟩ := List.forall_mem_append.1 h.parts
      obtain ⟨hfront, hsteps⟩ := List.forall_mem_append.1 hfront
      obtain ⟨hinit, hcondition⟩ := List.forall_mem_append.1 hfront
      have hbody := List.forall_mem_singleton.1 hbody
      have hwhile : Fits source (condition.mapM fun e => (part e).as .bool) := by
        cases condition with
        | none => exact .pure source _
        | some c =>
            rw [Option.mapM_some, map_eq_pure_bind]
            exact .bind (fits_as_part (List.forall_mem_singleton.1 hcondition) .bool) fun _ =>
              .pure source _
      rw [checkStmt]
      refine .inScope (.bind (fits_checkInit hinit) fun _ => .bind hwhile fun _ => ?_)
      exact .bind (.inScope (fits_checkStmt body true hbody)) fun _ =>
        .bind (fits_checkActions hsteps) fun _ => .pure source _
  | .ret value span, inLoop, h => by
      rw [checkStmt]
      exact fits_checkReturn h.parts h.fits
  | .throw e span, inLoop, h => by
      rw [checkStmt]
      exact fits_checkThrow (List.forall_mem_singleton.1 h.parts)
  | .leave span, inLoop, h | .next span, inLoop, h => by
      rw [checkStmt]
      exact fits_checkExit h.fits _ _

theorem fits_checkBlock : ∀ (body : List Tree.Stmt) (inLoop : Bool),
    (∀ s ∈ body, (Node.stmt s).Sound source) → Fits source (checkBlock inLoop body)
  | [], inLoop, _ => by
      rw [checkBlock]
      exact .pure source _
  | s :: rest, inLoop, h => by
      obtain ⟨hs, hrest⟩ := List.forall_mem_cons.1 h
      rw [checkBlock]
      exact .bind (fits_checkStmt s inLoop hs) fun _ =>
        .bind (fits_checkBlock rest inLoop hrest) fun _ => .pure source _

end

end

/-! ### Programs -/

section

variable {source : List Char}

theorem fits_declareParams (source : List Char) (ps : List (String × DataType)) :
    Fits source (declareParams ps) := by
  induction ps with
  | nil => exact .pure source _
  | cons p ps ih => exact .bind (.reserve source) fun _ => .bind (.modify source _) fun _ => ih

theorem fits_checkBody {m : Tree.Method} (h : (Node.method m).Sound source) :
    Fits source (checkBody m) := by
  obtain ⟨hhead, hbody⟩ := List.forall_mem_append.1 h.parts
  have hbody := (List.forall_mem_singleton.1 hbody).parts
  have hname := hhead _ (List.mem_cons_of_mem _ List.mem_cons_self)
  have hcheck : Fits source (checkStmt false (.block m.body.body m.body.span)) := by
    rw [checkStmt]
    refine .inScope (.bind (fits_checkBlock _ _ ?_) fun _ => .pure source _)
    exact List.forall_mem_map.1 hbody
  refine .bind (.read source) fun ctx => ?_
  refine .bind (.inScope (.bind (fits_declareParams source _) fun _ => hcheck)) fun body => ?_
  dsimp only
  split
  · exact .bind (.report hname.fits _) fun _ => .pure source _
  · exact .pure source _

theorem fits_checkClass {c : Tree.Class} (h : (Node.cls c).Sound source) (signatures : Signatures)
    (index : Nat) (s : ClassSignature) : (checkClass signatures index s c).Fits source := by
  obtain ⟨-, hmethods⟩ := List.forall_mem_cons.1 h.parts
  refine .bind (.mapM fun (signature, m) hm => ?_) fun _ => .pure source _
  have hm := List.forall_mem_map.1 hmethods m (List.of_mem_zip hm).2
  exact .bind (fits_checkBody hm _ _) fun _ => .pure source _

end

end Typing

namespace Signatures

variable {source : List Char} {names : TypeNames}

theorem fits_paramType {t : Tree.TypeRef} (h : t.span.Fits source) :
    (paramType names t).Fits source := by
  refine .bind (Typing.fits_resolved? h names) fun a => ?_
  split
  · exact .bind (.report h _) fun _ => .pure source _
  · exact .pure source _
  · exact .pure source _

theorem fits_paramTypes {ps : List Tree.Param}
    (h : ∀ n ∈ ps.flatMap Tree.Param.parts, n.Sound source) (before : List String) :
    (paramTypes names before ps).Fits source := by
  induction ps generalizing before with
  | nil => exact .pure source _
  | cons p ps ih =>
      obtain ⟨hp, hps⟩ := List.forall_mem_append.1 h
      obtain ⟨htype, hname⟩ := Typing.forall_mem_pair.1 hp
      refine .bind (fits_paramType htype.fits) fun t => ?_
      dsimp only
      split
      · exact .bind (.report hname.fits _) fun _ => .bind (ih hps _) fun _ => .pure source _
      · exact .bind (ih hps _) fun _ => .pure source _

theorem fits_ofMethod {m : Tree.Method} (h : (Node.method m).Sound source) (cls : String)
    (before : List String) : (ofMethod names cls before m).Fits source := by
  obtain ⟨hhead, -⟩ := List.forall_mem_append.1 h.parts
  obtain ⟨hresult, hhead⟩ := List.forall_mem_cons.1 hhead
  obtain ⟨hname, hparams⟩ := List.forall_mem_cons.1 hhead
  have hname := hname.fits
  refine .bind (Typing.fits_resolved? hresult.fits names) fun _ => ?_
  refine .bind (fits_paramTypes hparams []) fun _ => ?_
  dsimp only
  split <;> split
  · exact .bind (.report hname _) fun _ => .bind (.report hname _) fun _ => .pure source _
  · exact .bind (.report hname _) fun _ => .pure source _
  · exact .bind (.report hname _) fun _ => .pure source _
  · exact .pure source _

theorem fits_ofMethods {ms : List Tree.Method} (h : ∀ m ∈ ms, (Node.method m).Sound source)
    (cls : String) (before : List String) : (ofMethods names cls before ms).Fits source := by
  induction ms generalizing before with
  | nil => exact .pure source _
  | cons m ms ih =>
      obtain ⟨hm, hms⟩ := List.forall_mem_cons.1 h
      exact .bind (fits_ofMethod hm cls before) fun _ => .bind (ih hms _) fun _ => .pure source _

theorem fits_reportDuplicates {cs : List Tree.Class} (h : ∀ c ∈ cs, (Node.cls c).Sound source)
    (before : List String) : (reportDuplicates before cs).Fits source := by
  induction cs generalizing before with
  | nil => exact .pure source _
  | cons c cs ih =>
      obtain ⟨hc, hcs⟩ := List.forall_mem_cons.1 h
      obtain ⟨hname, -⟩ := List.forall_mem_cons.1 hc.parts
      rw [reportDuplicates]
      split
      · exact .bind (.report hname.fits _) fun _ => ih hcs _
      · exact ih hcs _

theorem fits_ofSource {s : Tree.Source} (h : ∀ c ∈ s.classes, (Node.cls c).Sound source) :
    (ofSource s).Fits source := by
  refine .bind (fits_reportDuplicates h []) fun _ => ?_
  refine .bind (.mapM fun c hc => ?_) fun _ => .pure source _
  obtain ⟨-, hmethods⟩ := List.forall_mem_cons.1 (h c hc).parts
  exact .bind (fits_ofMethods (List.forall_mem_map.1 hmethods) _ _) fun _ => .pure source _

end Signatures

/-- What is wrong with a program is about its nodes. -/
theorem Typing.fits_checkSource {source : List Char} {s : Tree.Source}
    (h : ∀ c ∈ s.classes, (Node.cls c).Sound source) : (checkSource s).Fits source := by
  refine .bind (Signatures.fits_ofSource h) fun signatures => ?_
  refine .mapM fun ((signature, c), index) hc => ?_
  have hmem := (List.of_mem_zip (List.fst_mem_of_mem_zipIdx hc)).2
  exact fits_checkClass (h c hmem) signatures index signature

end Scriptlet
