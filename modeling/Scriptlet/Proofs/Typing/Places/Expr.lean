import Scriptlet.Proofs.Parser.Nodes
import Scriptlet.Typing.Expr

namespace Scriptlet

/-!
# Places of errors in expressions

What is reported about a tree is about its nodes, or about what is between two of them. So where the
nodes fit a text, the reports do.
-/

open Text (Span)
open Scriptlet.Tree (Node)

/-- All that is reported is about places in a text. -/
def Reporting.Fits {α : Type} (source : List Char) (r : Reporting α) : Prop :=
  ∀ report ∈ r.reports, report.span.Fits source

namespace Reporting.Fits

variable {α β : Type} {source : List Char} {x : Reporting α} {f : α → Reporting β}

theorem pure (source : List Char) (a : α) : (pure a : Reporting α).Fits source :=
  fun _ h => absurd h List.not_mem_nil

theorem bind (hx : x.Fits source) (hf : ∀ a, (f a).Fits source) : (x >>= f).Fits source :=
  fun report h => (List.mem_append.1 h).elim (hx report) (hf x.value report)

theorem report {span : Span} (h : span.Fits source) (e : SemanticError) :
    (report e span).Fits source :=
  List.forall_mem_singleton.2 h

theorem mapM {f : α → Reporting β} {xs : List α} (h : ∀ x ∈ xs, (f x).Fits source) :
    (xs.mapM f).Fits source := by
  induction xs with
  | nil => exact pure source []
  | cons x xs ih =>
      rw [List.mapM_cons]
      obtain ⟨hx, hxs⟩ := List.forall_mem_cons.1 h
      exact .bind hx fun _ => .bind (ih hxs) fun _ => pure source _

end Reporting.Fits

namespace Typing

/-- Whatever the context and the variables, a check reports only about places in a text. -/
def Fits {α : Type} (source : List Char) (c : Check α) : Prop :=
  ∀ ctx v, (c ctx v).Fits source

namespace Fits

variable {α β : Type} {source : List Char} {c : Check α} {f : α → Check β} {span : Span}

theorem pure (source : List Char) (a : α) : Fits source (pure a : Check α) :=
  fun _ v => .pure source (a, v)

theorem bind (hc : Fits source c) (hf : ∀ a, Fits source (f a)) : Fits source (c >>= f) := by
  intro ctx v
  have hbind : (c >>= f) ctx v = c ctx v >>= fun r => f r.1 ctx r.2 := rfl
  rw [hbind]
  exact .bind (hc ctx v) fun r => hf r.1 ctx r.2

theorem lift {r : Reporting α} (h : r.Fits source) : Fits source (liftM r : Check α) :=
  fun _ v => .bind h fun a => .pure source (a, v)

theorem report (h : span.Fits source) (e : SemanticError) :
    Fits source (liftM (report e span) : Check Unit) :=
  lift (.report h e)

theorem wrong (h : span.Fits source) (e : SemanticError) : Fits source (wrong e span) :=
  bind (report h e) fun _ => pure source _

theorem read (source : List Char) : Fits source (read : Check Context) :=
  fun ctx v => .pure source (ctx, v)

theorem get (source : List Char) : Fits source (get : Check Variables) :=
  fun _ v => .pure source (v, v)

theorem modify (source : List Char) (g : Variables → Variables) :
    Fits source (modify g : Check Unit) :=
  fun _ v => .pure source ((), g v)

theorem lookup? (source : List Char) (name : String) : Fits source (lookup? name) :=
  fun _ v => .pure source (v.scopes.lookup? name, v)

theorem reserve (source : List Char) : Fits source reserve :=
  fun _ v => .pure source
    (v.draft.locals, (⟨v.scopes, (Code.Drafting.reserve.run v.draft).2⟩ : Variables))

theorem mapM {f : α → Check β} {xs : List α} (h : ∀ x ∈ xs, Fits source (f x)) :
    Fits source (xs.mapM f) := by
  induction xs with
  | nil => exact pure source []
  | cons x xs ih =>
      rw [List.mapM_cons]
      obtain ⟨hx, hxs⟩ := List.forall_mem_cons.1 h
      exact bind hx fun _ => bind (ih hxs) fun _ => pure source _

theorem inScope (hc : Fits source c) : Fits source (inScope c) :=
  bind (modify source _) fun _ => bind hc fun _ => bind (modify source _) fun _ => pure source _

theorem ite {p : Prop} [Decidable p] {c' : Check α} (h : Fits source c) (h' : Fits source c') :
    Fits source (if p then c else c') := by
  split
  · exact h
  · exact h'

end Fits

/-- A part of an expression at a place in a text. -/
structure Part.Fits (source : List Char) (p : Part) : Prop where
  span : p.span.Fits source
  check : Typing.Fits source p.check

section

variable {source : List Char} {span : Span} {c left right : Check Typed} {p : Part}
  {args : List Part} {name : Tree.Ident}

theorem Typed.fits_converted (h : span.Fits source) (t : Typed) (target : DataType) :
    Fits source (t.converted target span) := by
  unfold converted
  split
  · exact .pure source _
  · exact .bind (.report h _) fun _ => .pure source _

theorem Part.Fits.as (h : p.Fits source) (target : DataType) : Typing.Fits source (p.as target) :=
  .bind h.check fun t => t.fits_converted h.span target

theorem fits_resolved? {t : Tree.TypeRef} (h : t.span.Fits source) (names : TypeNames) :
    (names.resolved? t).Fits source := by
  unfold TypeNames.resolved?
  split
  · exact .pure source _
  · exact .bind (.report h _) fun _ => .pure source _

theorem fits_resolve? {t : Tree.TypeRef} (h : t.span.Fits source) : Fits source (resolve? t) :=
  .bind (.read source) fun ctx => .lift (fits_resolved? h ctx.signatures.names)

theorem fits_declare (h : name.span.Fits source) (t : DataType) : Fits source (declare name t) := by
  refine .bind (.reserve source) fun _ => .bind (.get source) fun _ => ?_
  split
  · exact .bind (.modify source _) fun _ => .pure source _
  · exact .bind (.report h _) fun _ => .pure source _

/-! ### Literals and operators -/

theorem fits_checkInteger (h : span.Fits source) (n : Int) (long : Bool) :
    Fits source (checkInteger n long span) :=
  .ite (.pure source _) (.ite (.pure source _) (.wrong h _))

theorem fits_checkLiteral (h : span.Fits source) (l : Tree.Literal) :
    Fits source (checkLiteral l span) := by
  unfold checkLiteral
  split
  · exact fits_checkInteger h _ _
  all_goals exact .pure source _

theorem fits_checkIndex {index : Part} (hp : p.Fits source) (hindex : index.Fits source) :
    Fits source (checkIndex p index) := by
  refine .bind hp.check fun r => ?_
  split
  · exact .bind hindex.check fun _ => .pure source _
  · exact .bind (hindex.as .int) fun _ => .pure source _
  · exact .wrong hp.span _

theorem fits_checkPlus (hc : Fits source c) (h : span.Fits source) :
    Fits source (checkPlus c span) := by
  refine .bind hc fun e => ?_
  split
  · exact .pure source _
  · exact .wrong h _
  · split
    · exact .pure source _
    · exact .wrong h _

theorem fits_checkUnary (op : UnaryOp) (hc : Fits source c) (h : span.Fits source) :
    Fits source (checkUnary op c span) := by
  refine .bind hc fun e => ?_
  dsimp only
  split
  · exact .pure source _
  · exact .wrong h _
  · split
    · exact .pure source _
    · exact .wrong h _

theorem fits_checkBinary (op : BinaryOp) (hl : Fits source left) (hr : Fits source right)
    (h : span.Fits source) : Fits source (checkBinary op left right span) := by
  refine .bind hl fun l => .bind hr fun r => .ite (.pure source _) ?_
  split
  · exact .pure source _
  · exact .wrong h _

theorem fits_checkLogical (op : Tree.Operator) (make : Core.Expr → Core.Expr → Core.Expr)
    (hl : Fits source left) (hr : Fits source right) (h : span.Fits source) :
    Fits source (checkLogical op make left right span) :=
  .bind hl fun _ => .bind hr fun _ => .ite (.pure source _) (.ite (.pure source _) (.wrong h _))

theorem fits_target? {target : Tree.Expr} (h : target.span.Fits source) (e : SemanticError) :
    Fits source (target? target e) := by
  unfold target?
  split
  · refine .bind (.read source) fun _ => .bind (.lookup? source _) fun _ => ?_
    split
    · exact .pure source _
    · exact .bind (.report h _) fun _ => .pure source _
  · exact .bind (.report h _) fun _ => .pure source _

theorem fits_checkCompound (op : BinaryOp) (l : Local) (operand : Typed) (h : span.Fits source) :
    Fits source (checkCompound op l operand span) := by
  unfold checkCompound
  split
  · exact .bind (.report h _) fun _ => .pure source _
  · dsimp only
    split
    · exact .pure source _
    · exact .ite (.pure source _) (.bind (.report h _) fun _ => .pure source _)

theorem fits_checkAssign (op : Option BinaryOp) {target : Tree.Expr}
    (htarget : target.span.Fits source) (hp : p.Fits source) (h : span.Fits source) :
    Fits source (checkAssign op target p span) := by
  refine .bind (fits_target? htarget _) fun l => ?_
  split
  · exact .pure source _
  · split
    · exact .bind (hp.as _) fun _ => .pure source _
    · refine .bind hp.check fun operand => .ite (.pure source _) ?_
      refine .bind (fits_checkCompound _ _ operand h) fun e => ?_
      split
      · exact .pure source _
      · exact .pure source _

theorem fits_checkStep (increment isPrefix : Bool) {target : Tree.Expr}
    (h : target.span.Fits source) : Fits source (checkStep increment isPrefix target) := by
  refine .bind (fits_target? h _) fun l => ?_
  split
  · exact .pure source _
  · split
    · exact .wrong h _
    · exact .pure source _

theorem fits_checkConditional (hp : p.Fits source) (hl : Fits source left)
    (hr : Fits source right) (h : span.Fits source) :
    Fits source (checkConditional p left right span) := by
  refine .bind (hp.as .bool) fun _ => .bind hl fun _ => .bind hr fun _ => ?_
  dsimp only
  refine .ite (.pure source _) (.ite (.pure source _) ?_)
  split
  · exact .pure source _
  · exact .pure source _
  · exact .wrong h _

/-- What is wrong with a cast is about the text from its type to its operand. -/
theorem fits_checkCast {type : Tree.TypeRef} (h : type.span.Fits source) (hp : p.Fits source) :
    Fits source (checkCast type p) := by
  have hspan := h.merge hp.span
  refine .bind (fits_resolve? h) fun _ => .bind hp.check fun _ => ?_
  split
  · exact .pure source _
  · exact .pure source _
  · dsimp only
    split
    · exact .wrong hspan _
    · split
      · exact .ite (.wrong hspan _) (.pure source _)
      · exact .pure source _

/-! ### Names, members and calls -/

theorem fits_owner? (source : List Char) (e : Tree.Expr) : Fits source (owner? e) := by
  refine .bind (.read source) fun _ => ?_
  dsimp only
  split
  · exact .pure source _
  · refine .bind (.lookup? source _) fun _ => .pure source _
  · refine .bind (.lookup? source _) fun _ => .ite (.pure source _) (.pure source _)
  · exact .pure source _

theorem fits_checkName (h : span.Fits source) (n : String) : Fits source (checkName n span) := by
  refine .bind (.read source) fun _ => .bind (.lookup? source _) fun _ => ?_
  split
  · exact .pure source _
  · split
    · exact .wrong h _
    · exact .ite (.wrong h _) (.ite (.wrong h _) (.wrong h _))

theorem fits_checkStaticMember (h : name.span.Fits source) (owner : Owner) :
    Fits source (checkStaticMember owner name) := by
  refine .bind (.read source) fun _ => ?_
  dsimp only
  split
  · exact .pure source _
  · exact .ite (.wrong h _) (.wrong h _)

theorem fits_checkValueMember (hc : Fits source c) (h : name.span.Fits source) :
    Fits source (checkValueMember c name) := by
  refine .bind hc fun r => ?_
  split
  · exact .pure source _
  · exact .wrong h _
  · split
    · exact .pure source _
    · exact .ite (.wrong h _) (.wrong h _)

theorem fits_checkArgs (h : ∀ p ∈ args, p.Fits source) (place : Nat) (ts : List DataType) :
    Fits source (checkArgs place args ts) := by
  induction args generalizing place ts with
  | nil => exact .pure source _
  | cons p ps ih =>
      obtain ⟨hp, hps⟩ := List.forall_mem_cons.1 h
      cases ts with
      | nil => exact .pure source _
      | cons t ts =>
          rw [checkArgs]
          refine .bind hp.check fun a => ?_
          split
          · exact .bind (.pure source _) fun _ => .bind (ih hps _ _) fun _ => .pure source _
          · refine .bind (.report hp.span _) fun _ => ?_
            exact .bind (.pure source _) fun _ => .bind (ih hps _ _) fun _ => .pure source _

theorem fits_reportArgs {args : List (Span × Typed)} (h : ∀ a ∈ args, a.1.Fits source)
    (place : Nat) (ts : List DataType) : Fits source (reportArgs place args ts) := by
  induction args generalizing place ts with
  | nil => exact .pure source _
  | cons a rest ih =>
      obtain ⟨ha, hrest⟩ := List.forall_mem_cons.1 h
      cases ts with
      | nil => exact .pure source _
      | cons t ts =>
          rw [reportArgs]
          split
          · exact .bind (.report ha _) fun _ => ih hrest _ _
          · exact ih hrest _ _

theorem fits_checkOverloads (h : name.span.Fits source) (hargs : ∀ p ∈ args, p.Fits source)
    (overloads : List Overload) (receiver : List Core.Expr) :
    Fits source (checkOverloads name overloads receiver args) := by
  unfold checkOverloads
  split
  · exact .wrong h _
  · exact .bind (fits_checkArgs hargs _ _) fun _ => .pure source _
  · refine .bind (.mapM fun p hp => (hargs p hp).check) fun ts => ?_
    split
    · exact .pure source _
    · refine .bind (fits_reportArgs (fun a ha => ?_) _ _) fun _ => .pure source _
      obtain ⟨p, hp, heq⟩ := List.mem_map.1 (List.of_mem_zip ha).1
      exact heq ▸ (hargs p hp).span

theorem fits_checkMethodCall (hargs : ∀ p ∈ args, p.Fits source) (h : span.Fits source)
    (clsIndex : Nat) (cls : ClassSignature) (methodIndex : Nat) (m : MethodSignature)
    (qualified : Bool) :
    Fits source (checkMethodCall clsIndex cls methodIndex m qualified args span) := by
  refine .bind (.read source) fun _ => .ite (.wrong h _) (.ite (.wrong h _) ?_)
  exact .bind (fits_checkArgs hargs _ _) fun _ => .pure source _

theorem fits_checkSimpleCall (hargs : ∀ p ∈ args, p.Fits source) (h : span.Fits source)
    (n : String) : Fits source (checkSimpleCall n span args) := by
  refine .bind (.read source) fun _ => .bind (.lookup? source _) fun _ => .ite (.wrong h _) ?_
  split
  · exact fits_checkMethodCall hargs h _ _ _ _ _
  · exact .wrong h _

theorem fits_checkStaticCall (hargs : ∀ p ∈ args, p.Fits source) (h : name.span.Fits source)
    (owner : Owner) : Fits source (checkStaticCall owner name args) := by
  refine .bind (.read source) fun _ => ?_
  dsimp only
  split
  · split
    · split
      · exact fits_checkMethodCall hargs h _ _ _ _ _
      · exact .wrong h _
    · exact .wrong h _
  · split
    · exact fits_checkOverloads h hargs _ _
    · exact .wrong h _

theorem fits_checkValueCall (hc : Fits source c) (hargs : ∀ p ∈ args, p.Fits source)
    (h : name.span.Fits source) : Fits source (checkValueCall c name args) := by
  refine .bind hc fun r => ?_
  split
  · exact .pure source _
  · exact .wrong h _
  · split
    · exact fits_checkOverloads h hargs _ _
    · exact .ite (.wrong h _) (.wrong h _)

theorem fits_checkNew {type : Tree.TypeRef} (htype : type.span.Fits source)
    (hargs : ∀ p ∈ args, p.Fits source) (h : span.Fits source) :
    Fits source (checkNew type args span) := by
  refine .bind (fits_resolve? htype) fun t => ?_
  split
  · exact .pure source _
  · split
    · exact .pure source _
    · exact .bind (fits_checkArgs hargs _ _) fun _ => .pure source _
    · exact .wrong h _

end

/-! ### Expressions -/

section

variable {source : List Char}

theorem forall_mem_pair {α : Type} {P : α → Prop} {a b : α} : (∀ x ∈ [a, b], P x) ↔ P a ∧ P b := by
  rw [List.forall_mem_cons, List.forall_mem_singleton]

mutual

/-- What is wrong with an expression is about its nodes. -/
theorem fits_checkExpr : ∀ e : Tree.Expr, (Node.expr e).Sound source → Fits source (checkExpr e)
  | .literal l span, h => by
      rw [checkExpr]
      exact fits_checkLiteral h.fits l
  | .name name span, h => by
      rw [checkExpr]
      exact fits_checkName h.fits name
  | .type t span, h => by
      rw [checkExpr]
      exact .wrong h.fits _
  | .member receiver name span, h => by
      obtain ⟨hreceiver, hname⟩ := forall_mem_pair.1 h.parts
      rw [checkExpr]
      refine .bind (fits_owner? source receiver) fun owner => ?_
      split
      · exact fits_checkStaticMember hname.fits _
      · exact fits_checkValueMember (fits_checkExpr receiver hreceiver) hname.fits
  | .call (.name name s) args span, h => by
      obtain ⟨hcallee, hargs⟩ := List.forall_mem_cons.1 h.parts
      rw [checkExpr]
      exact fits_checkSimpleCall (fits_parts args (List.forall_mem_map.1 hargs)) hcallee.fits name
  | .call (.member receiver name s) args span, h => by
      obtain ⟨hcallee, hargs⟩ := List.forall_mem_cons.1 h.parts
      obtain ⟨hreceiver, hname⟩ := forall_mem_pair.1 hcallee.parts
      have hargs := fits_parts args (List.forall_mem_map.1 hargs)
      rw [checkExpr]
      refine .bind (fits_owner? source receiver) fun owner => ?_
      split
      · exact fits_checkStaticCall hargs hname.fits _
      · exact fits_checkValueCall (fits_checkExpr receiver hreceiver) hargs hname.fits
  | .call (.literal _ _) _ _, h | .call (.type _ _) _ _, h | .call (.call _ _ _) _ _, h
  | .call (.index _ _ _) _ _, h | .call (.new _ _ _) _ _, h | .call (.unary _ _ _) _ _, h
  | .call (.binary _ _ _ _) _ _, h | .call (.assign _ _ _ _) _ _, h | .call (.step _ _ _ _) _ _, h
  | .call (.conditional _ _ _ _) _ _, h | .call (.cast _ _ _) _ _, h => by
      obtain ⟨hcallee, -⟩ := List.forall_mem_cons.1 h.parts
      rw [checkExpr]
      · exact .wrong hcallee.fits _
      all_goals simp
  | .index receiver index span, h => by
      obtain ⟨hreceiver, hindex⟩ := forall_mem_pair.1 h.parts
      rw [checkExpr]
      exact fits_checkIndex ⟨hreceiver.fits, fits_checkExpr receiver hreceiver⟩
        ⟨hindex.fits, fits_checkExpr index hindex⟩
  | .new type args span, h => by
      obtain ⟨htype, hargs⟩ := List.forall_mem_cons.1 h.parts
      rw [checkExpr]
      exact fits_checkNew htype.fits (fits_parts args (List.forall_mem_map.1 hargs)) h.fits
  | .unary .plus operand span, h => by
      have hoperand := List.forall_mem_singleton.1 h.parts
      rw [checkExpr]
      exact fits_checkPlus (fits_checkExpr operand hoperand) h.fits
  | .unary (.strict op) operand span, h => by
      have hoperand := List.forall_mem_singleton.1 h.parts
      by_cases hint : ∃ value long s, op = .neg ∧ operand = .literal (.int value long) s
      · obtain ⟨value, long, s, rfl, rfl⟩ := hint
        rw [checkExpr]
        exact fits_checkInteger h.fits _ _
      · rw [checkExpr]
        · exact fits_checkUnary op (fits_checkExpr operand hoperand) h.fits
        · exact fun value long s hlit hneg => hint ⟨value, long, s, hneg, hlit⟩
  | .binary .andAlso left right span, h | .binary .orElse left right span, h => by
      obtain ⟨hleft, hright⟩ := forall_mem_pair.1 h.parts
      rw [checkExpr]
      exact fits_checkLogical _ _ (fits_checkExpr left hleft) (fits_checkExpr right hright) h.fits
  | .binary (.strict op) left right span, h => by
      obtain ⟨hleft, hright⟩ := forall_mem_pair.1 h.parts
      rw [checkExpr]
      exact fits_checkBinary op (fits_checkExpr left hleft) (fits_checkExpr right hright) h.fits
  | .assign op target value span, h => by
      obtain ⟨htarget, hvalue⟩ := forall_mem_pair.1 h.parts
      rw [checkExpr]
      exact fits_checkAssign op htarget.fits ⟨hvalue.fits, fits_checkExpr value hvalue⟩ h.fits
  | .step increment isPrefix target span, h => by
      have htarget := List.forall_mem_singleton.1 h.parts
      rw [checkExpr]
      exact fits_checkStep increment isPrefix htarget.fits
  | .conditional condition yes no span, h => by
      obtain ⟨hcondition, hbranches⟩ := List.forall_mem_cons.1 h.parts
      obtain ⟨hyes, hno⟩ := forall_mem_pair.1 hbranches
      rw [checkExpr]
      exact fits_checkConditional ⟨hcondition.fits, fits_checkExpr condition hcondition⟩
        (fits_checkExpr yes hyes) (fits_checkExpr no hno) h.fits
  | .cast type operand span, h => by
      obtain ⟨htype, hoperand⟩ := forall_mem_pair.1 h.parts
      rw [checkExpr]
      exact fits_checkCast htype.fits ⟨hoperand.fits, fits_checkExpr operand hoperand⟩

theorem fits_parts : ∀ es : List Tree.Expr, (∀ e ∈ es, (Node.expr e).Sound source) →
    ∀ p ∈ parts es, p.Fits source
  | [], _ => by
      rw [parts]
      exact fun _ h => absurd h List.not_mem_nil
  | e :: es, h => by
      obtain ⟨he, hes⟩ := List.forall_mem_cons.1 h
      rw [parts]
      exact List.forall_mem_cons.2 ⟨⟨he.fits, fits_checkExpr e he⟩, fits_parts es hes⟩

end

theorem fits_as_part {e : Tree.Expr} (h : (Node.expr e).Sound source) (target : DataType) :
    Fits source ((part e).as target) :=
  Part.Fits.as ⟨h.fits, fits_checkExpr e h⟩ target

end

end Typing

end Scriptlet
