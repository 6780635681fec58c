import Mathlib.Algebra.Group.Int.Defs
import Scriptlet.Proofs.Core.Pool
import Scriptlet.Proofs.Typing.Elaboration
import Scriptlet.Proofs.Typing.Standing

namespace Scriptlet

/-!
# Integer literals become constants

An integer literal of an accepted program is in its core program as a constant of the same value.
-/

open Code (Literal)

namespace SignedInteger

/-- Whether the literal is an `int`: it is not marked as `long`, and an `int` has its value. -/
def IsInt (i : SignedInteger) : Prop :=
  i.long = false ∧ -2 ^ 31 ≤ i.value ∧ i.value < 2 ^ 31

/-- Whether a `long` has the value of the literal. -/
def Fits (i : SignedInteger) : Prop :=
  -2 ^ 63 ≤ i.value ∧ i.value < 2 ^ 63

theorem IsInt.fits {i : SignedInteger} (h : i.IsInt) : i.Fits := by
  have hlow := h.2.1
  have hhigh := h.2.2
  exact ⟨by omega, by omega⟩

/-- The constant that has the value of an integer literal, and its type. -/
inductive Constant (i : SignedInteger) : Literal → DataType → Prop
  | int {k : Int32} (h : i.IsInt) (hk : k.toInt = i.value) : Constant i (.int k) .int
  | long {k : Int64} (h : ¬i.IsInt) (hk : k.toInt = i.value) : Constant i (.long k) .long

end SignedInteger

/-- Each of the integer literals has its constant among the literals of a core program. -/
def Kept (is : List SignedInteger) (ls : List Literal) : Prop :=
  ∀ i ∈ is, ∃ k t, i.Constant k t ∧ k ∈ ls

theorem kept_nil (ls : List Literal) : Kept [] ls :=
  fun _ h => absurd h List.not_mem_nil

theorem Kept.append {is js : List SignedInteger} {ls ms : List Literal} (h : Kept is ls)
    (h' : Kept js ms) : Kept (is ++ js) (ls ++ ms) := by
  intro i hi
  obtain hi | hi := List.mem_append.1 hi
  · obtain ⟨k, t, hk, hmem⟩ := h i hi
    exact ⟨k, t, hk, List.mem_append_left _ hmem⟩
  · obtain ⟨k, t, hk, hmem⟩ := h' i hi
    exact ⟨k, t, hk, List.mem_append_right _ hmem⟩

namespace Typing

section

variable {i : SignedInteger} {k : Literal} {o : Operand} {t : DataType}

/-- Checking an integer literal elaborates it, or reports that it is too large. -/
theorem checkInteger_eq (n : Int) (long : Bool) (span : Text.Span) :
    checkInteger n long span = match integer? n long with
      | some (k, o) => pure ⟨.literal k, o⟩
      | none => wrong (.constantTooLarge n) span := by
  unfold checkInteger integer?
  split
  · rfl
  · split <;> rfl

theorem checkExpr_of_integer? {e : Tree.Expr} (h : e.integer? = some i) :
    checkExpr e = checkInteger i.value i.long e.span := by
  unfold Tree.Expr.integer? at h
  split at h
  · cases h
    rw [checkExpr]
    rfl
  · cases h
    rw [checkExpr]
    rfl
  · cases h

theorem isInt_iff :
    i.IsInt ↔ (!i.long) = true ∧ -2147483648 ≤ i.value ∧ i.value ≤ 2147483647 := by
  rw [SignedInteger.IsInt, Bool.not_eq_true']
  exact and_congr_right fun _ => by omega

theorem fits_iff :
    i.Fits ↔ -9223372036854775808 ≤ i.value ∧ i.value ≤ 9223372036854775807 := by
  rw [SignedInteger.Fits]
  omega

/-- What elaboration makes of an integer literal is its constant. -/
theorem constant_of_integer? (h : integer? i.value i.long = some (k, o)) :
    ∃ t, i.Constant k t ∧ o.type = .of t := by
  unfold integer? at h
  split at h
  · next hint =>
      cases h
      exact ⟨.int, .int (isInt_iff.2 hint) (Int32.toInt_ofInt_of_le hint.2.1 (by omega)), rfl⟩
  · next hint =>
      split at h
      · next hlong =>
          cases h
          refine ⟨.long, .long (fun h => hint (isInt_iff.1 h)) ?_, rfl⟩
          exact Int64.toInt_ofInt_of_le hlong.1 (by omega)
      · cases h

theorem fits_of_constant (h : i.Constant k t) : i.Fits := by
  cases h with
  | int h _ => exact fits_iff.2 (by have := isInt_iff.1 h; omega)
  | @long k _ hk =>
      have hlow := k.le_toInt
      have hhigh := k.toInt_lt
      exact fits_iff.2 (by omega)

theorem integer?_eq_none_iff : integer? i.value i.long = none ↔ ¬i.Fits := by
  constructor
  · intro hnone hfits
    unfold integer? at hnone
    split at hnone
    · cases hnone
    · rw [if_pos (fits_iff.1 hfits)] at hnone
      cases hnone
  · intro hfits
    cases h : integer? i.value i.long with
    | none => rfl
    | some r =>
        obtain ⟨t, hconstant, -⟩ := constant_of_integer? (k := r.1) (o := r.2) h
        exact absurd (fits_of_constant hconstant) hfits

/-- A literal that fits has its constant, whatever stands around it. -/
theorem exists_constant_of_fits {e : Tree.Expr} (h : e.integer? = some i) (hfits : i.Fits) :
    ∃ k t o, i.Constant k t ∧ o.type = .of t ∧ checkExpr e = pure ⟨.literal k, o⟩ := by
  cases hi : integer? i.value i.long with
  | none => exact absurd hfits (integer?_eq_none_iff.1 hi)
  | some r =>
      obtain ⟨t, hconstant, htype⟩ := constant_of_integer? (k := r.1) (o := r.2) hi
      refine ⟨r.1, t, r.2, hconstant, htype, ?_⟩
      rw [checkExpr_of_integer? h, checkInteger_eq, hi]

theorem reports_of_not_fits {e : Tree.Expr} (h : e.integer? = some i) (hfits : ¬i.Fits) :
    Reports (checkExpr e) ⟨.constantTooLarge i.value, e.span⟩ := by
  rw [checkExpr_of_integer? h, checkInteger_eq, integer?_eq_none_iff.2 hfits]
  exact .wrong _ _

theorem kept_of_integer? (h : integer? i.value i.long = some (k, o)) : Kept [i] [k] := by
  intro j hj
  obtain rfl := List.mem_singleton.1 hj
  obtain ⟨t, hk, -⟩ := constant_of_integer? h
  exact ⟨k, t, hk, List.mem_singleton_self k⟩

/-- The literals of converted arguments are those of the arguments. -/
theorem Fitted.literals_eq {as : List Typed} {ts : List DataType} {es : List Core.Expr}
    (h : Fitted as ts es) : Core.literalsOf es = as.flatMap fun a => a.expr.literals := by
  induction h with
  | nil => rfl
  | convert _ _ ih | settle _ _ ih =>
      rw [Core.literalsOf, Core.Expr.literals, ih, List.flatMap_cons]

theorem Joined.literals_eq {a b : Typed} {x y : Core.Expr} {t : StaticType}
    (h : Joined a b x y t) : x.literals = a.expr.literals ∧ y.literals = b.expr.literals := by
  cases h <;> exact ⟨by rw [Core.Expr.literals], by rw [Core.Expr.literals]⟩

variable {ctx : Context} {look : Look}

/-- What stands for an owner has no integer literals. -/
theorem integers_of_ownerOf? {names : TypeNames} {hidden : String → Bool} {e : Tree.Expr}
    {owner : Owner} (h : ownerOf? names hidden e = some owner) : e.integers = [] := by
  unfold ownerOf? at h
  split at h
  · rw [Tree.Expr.integers]
  · rw [Tree.Expr.integers]
  · rw [Tree.Expr.integers, Tree.Expr.integers]
  · cases h

/-- What is no literal behind a minus has the literals of its operand. -/
theorem integers_unary {op : UnaryOp} {operand : Tree.Expr} (span : Text.Span)
    (h : ∀ value long s, op = .neg → operand = .literal (.int value long) s → False) :
    Tree.Expr.integers (.unary (.strict op) operand span) = operand.integers := by
  rw [Tree.Expr.integers]
  split
  · next i hi =>
      unfold Tree.Expr.integer? at hi
      split at hi
      · next heq => cases heq
      · next heq =>
          cases heq
          exact (h _ _ _ rfl rfl).elim
      · cases hi
  · rfl

theorem kept_of_fitted {is : List SignedInteger} {as : List Typed} {ts : List DataType}
    {es : List Core.Expr} (h : Kept is (as.flatMap fun a => a.expr.literals))
    (hfit : Fitted as ts es) : Kept is (Core.literalsOf es) := by
  rw [hfit.literals_eq]
  exact h

mutual

/-- The integer literals of an elaborated expression are among the literals of its core
expression. -/
theorem Elaborates.kept : ∀ (e : Tree.Expr) {t : Typed}, Elaborates ctx look e t →
    Kept e.integers t.expr.literals
  | .literal l span, t, h => by
      cases h with
      | literal hl =>
          cases l with
          | int value long => exact kept_of_integer? (i := ⟨value, long, false⟩) hl
          | _ => exact kept_nil _
  | .name name span, t, h => kept_nil _
  | .type _ _, t, h => nomatch h
  | .member receiver name span, t, h => by
      cases h with
      | constant howner hk =>
          rw [Tree.Expr.integers, integers_of_ownerOf? howner]
          exact kept_nil _
      | property _ hr _ _ =>
          rw [Tree.Expr.integers]
          have hreceiver := (Elaborates.kept receiver hr).append (kept_nil [])
          rwa [List.append_nil] at hreceiver
  | .call (.name name span') args span, t, h => by
      cases h with
      | callHere _ _ _ hargs hfit =>
          rw [Tree.Expr.integers, Tree.Expr.integers]
          exact kept_of_fitted (ElaborateAll.kept args hargs) hfit
  | .call (.member receiver name span') args span, t, h => by
      cases h with
      | callThere howner _ _ _ hargs hfit | routine howner _ hargs _ hfit =>
          rw [Tree.Expr.integers, Tree.Expr.integers, integers_of_ownerOf? howner]
          exact kept_of_fitted (ElaborateAll.kept args hargs) hfit
      | routineOf _ hr _ _ hargs _ hfit =>
          rw [Tree.Expr.integers, Tree.Expr.integers]
          exact (Elaborates.kept receiver hr).append
            (kept_of_fitted (ElaborateAll.kept args hargs) hfit)
  | .call (.literal _ _) _ _, t, h | .call (.type _ _) _ _, t, h | .call (.call _ _ _) _ _, t, h
  | .call (.index _ _ _) _ _, t, h | .call (.new _ _ _) _ _, t, h
  | .call (.unary _ _ _) _ _, t, h | .call (.binary _ _ _ _) _ _, t, h
  | .call (.assign _ _ _ _) _ _, t, h | .call (.step _ _ _ _) _ _, t, h
  | .call (.conditional _ _ _ _) _ _, t, h | .call (.cast _ _ _) _ _, t, h => nomatch h
  | .index receiver index span, t, h => by
      cases h with
      | index hr _ hi _ =>
          rw [Tree.Expr.integers]
          have hindex := (Elaborates.kept index hi).append (kept_nil [])
          rw [List.append_nil] at hindex
          exact (Elaborates.kept receiver hr).append hindex
  | .new type [] span, t, h => by
      rw [Tree.Expr.integers]
      exact kept_nil _
  | .new type (message :: rest) span, t, h => by
      cases h with
      | newMessage _ hm hfit =>
          rw [Tree.Expr.integers]
          refine kept_of_fitted ?_ hfit
          rw [Tree.integersOf, Tree.integersOf, List.flatMap_cons, List.flatMap_nil]
          exact (Elaborates.kept message hm).append (kept_nil [])
  | .unary .plus operand span, t, h => by
      cases h with
      | plus he _ _ =>
          rw [Tree.Expr.integers]
          have hoperand := Elaborates.kept operand he
          exact hoperand
  | .unary (.strict op) operand span, t, h => by
      cases h with
      | @negative value long _ _ _ _ hk =>
          exact kept_of_integer? (i := ⟨value, long, true⟩) hk
      | unary hop he _ _ =>
          rw [integers_unary span hop]
          have hoperand := Elaborates.kept operand he
          exact hoperand
  | .binary .andAlso left right span, t, h => by
      rw [Tree.Expr.integers]
      cases h with
      | andAlso hl hr _ _ =>
          exact (Elaborates.kept left hl).append (Elaborates.kept right hr)
  | .binary .orElse left right span, t, h => by
      rw [Tree.Expr.integers]
      cases h with
      | orElse hl hr _ _ =>
          exact (Elaborates.kept left hl).append (Elaborates.kept right hr)
  | .binary (.strict op) left right span, t, h => by
      rw [Tree.Expr.integers]
      cases h with
      | binary hl hr _ =>
          exact (Elaborates.kept left hl).append (Elaborates.kept right hr)
  | .assign op target value span, t, h => by
      cases h with
      | assign _ he _ =>
          rw [Tree.Expr.integers, Tree.Expr.integers]
          have hvalue := Elaborates.kept value he
          exact hvalue
      | compound _ he _ _ =>
          rw [Tree.Expr.integers, Tree.Expr.integers]
          have hvalue := (kept_nil []).append (Elaborates.kept value he)
          exact hvalue
  | .step increment isPrefix target span, t, h => by
      cases h <;>
        · rw [Tree.Expr.integers, Tree.Expr.integers]
          exact kept_nil _
  | .conditional condition yes no span, t, h => by
      rw [Tree.Expr.integers, List.append_assoc]
      cases h with
      | conditional hc _ ha hb hj =>
          have hkept := (Elaborates.kept condition hc).append
            ((Elaborates.kept yes ha).append (Elaborates.kept no hb))
          rw [← hj.literals_eq.1, ← hj.literals_eq.2] at hkept
          exact hkept
  | .cast type operand span, t, h => by
      rw [Tree.Expr.integers]
      cases h with
      | cast _ he _ _ =>
          have hoperand := Elaborates.kept operand he
          exact hoperand

theorem ElaborateAll.kept : ∀ (es : List Tree.Expr) {ts : List Typed},
    ElaborateAll ctx look es ts → Kept (Tree.integersOf es) (ts.flatMap fun t => t.expr.literals)
  | [], ts, h => kept_nil _
  | e :: es, ts, h => by
      cases h with
      | cons he hes =>
          rw [Tree.integersOf, List.flatMap_cons]
          exact (Elaborates.kept e he).append (ElaborateAll.kept es hes)

end

/-! ### Statements -/

/-- Expressions whose integer literals are kept. -/
abbrev KeptOf (es : List Tree.Expr) (ls : List Literal) : Prop :=
  Kept (es.flatMap Tree.Expr.integers) ls

theorem keptOf_one {e : Tree.Expr} {ls : List Literal} (h : Kept e.integers ls) :
    KeptOf [e] ls := by
  rw [KeptOf, List.flatMap_cons, List.flatMap_nil, List.append_nil]
  exact h

theorem keptOf_append {es fs : List Tree.Expr} {ls ms : List Literal} (h : KeptOf es ls)
    (h' : KeptOf fs ms) : KeptOf (es ++ fs) (ls ++ ms) := by
  rw [KeptOf, List.flatMap_append]
  exact h.append h'

/-- What runs later may stand first. -/
theorem keptOf_swap {es fs : List Tree.Expr} {ls ms : List Literal} (h : KeptOf es ls)
    (h' : KeptOf fs ms) : KeptOf (es ++ fs) (ms ++ ls) := by
  intro i hi
  obtain ⟨k, t, hk, hmem⟩ := keptOf_append h h' i hi
  exact ⟨k, t, hk, List.mem_append.2 (List.mem_append.1 hmem).symm⟩

theorem Decides.kept {e : Tree.Expr} {core : Core.Expr} (h : Decides ctx look e core) :
    KeptOf [e] core.literals := by
  cases h with
  | mk he _ => exact keptOf_one (Elaborates.kept e he)

theorem Acts.kept {e : Tree.Expr} {core : Core.Stmt} (h : Acts ctx look e core) :
    KeptOf [e] core.literals := by
  cases h with
  | mk he => exact keptOf_one (Elaborates.kept e he)

theorem keptOf_of_acts {es : List Tree.Expr} {core : List Core.Stmt}
    (h : List.Forall₂ (Acts ctx look) es core) : KeptOf es (Core.blockLiterals core) := by
  induction h with
  | nil => exact kept_nil _
  | cons hfirst _ ih => exact keptOf_append hfirst.kept ih

theorem Begins.kept {type : Option DataType} {value : Option Tree.Expr} {t : DataType}
    {core : Core.Expr} (h : Begins ctx look type value t core) :
    KeptOf value.toList core.literals := by
  cases h with
  | default => exact kept_nil _
  | stated he _ | inferred he _ _ => exact keptOf_one (Elaborates.kept _ he)

theorem DeclareAll.kept {type : Option DataType} {v u : Variables} {ds : List Tree.Declarator}
    {core : List Core.Stmt} (h : DeclareAll ctx type v ds core u) :
    KeptOf (ds.flatMap fun d => d.value.toList) (Core.blockLiterals core) := by
  induction h with
  | nil => exact kept_nil _
  | cons hbegins _ _ ih => exact keptOf_append hbegins.kept ih

theorem Initializes.kept {v u : Variables} {init : Tree.ForInit} {core : List Core.Stmt}
    (h : Initializes ctx v init core u) : KeptOf init.expressions (Core.blockLiterals core) := by
  cases h with
  | nothing => exact kept_nil _
  | locals _ hds => exact hds.kept
  | exprs hacts => exact keptOf_of_acts hacts

theorem blockLiterals_append (body rest : List Core.Stmt) :
    Core.blockLiterals (body ++ rest) = Core.blockLiterals body ++ Core.blockLiterals rest := by
  induction body with
  | nil => rfl
  | cons s body ih =>
      rw [List.cons_append, Core.blockLiterals, ih, Core.blockLiterals, List.append_assoc]

mutual

/-- The integer literals of an elaborated statement are among the literals of its core
statement. -/
theorem StmtElaborates.kept : ∀ (s : Tree.Stmt) {inLoop : Bool} {v u : Variables}
    {core : Core.Stmt}, StmtElaborates ctx inLoop v s core u →
      KeptOf s.expressions core.literals
  | .block body span, inLoop, v, u, core, h => by
      rw [Tree.Stmt.expressions]
      cases h with
      | block hbody => exact BlockElaborates.kept body hbody
  | .empty span, inLoop, v, u, core, h | .leave span, inLoop, v, u, core, h
  | .next span, inLoop, v, u, core, h => by
      rw [Tree.Stmt.expressions]
      exact kept_nil _
  | .locals d span, inLoop, v, u, core, h => by
      rw [Tree.Stmt.expressions]
      cases h with
      | locals _ hds => exact hds.kept
  | .expr e span, inLoop, v, u, core, h => by
      rw [Tree.Stmt.expressions]
      cases h with
      | expr hacts => exact hacts.kept
  | .cond condition yes none span, inLoop, v, u, core, h => by
      rw [Tree.Stmt.expressions]
      cases h with
      | condOnly hc hy => exact keptOf_append hc.kept (StmtElaborates.kept yes hy)
  | .cond condition yes (some no) span, inLoop, v, u, core, h => by
      rw [Tree.Stmt.expressions, List.cons_append]
      cases h with
      | condElse hc hy hn =>
          exact keptOf_append hc.kept
            (keptOf_append (StmtElaborates.kept yes hy) (StmtElaborates.kept no hn))
  | .loop condition body span, inLoop, v, u, core, h => by
      rw [Tree.Stmt.expressions]
      cases h with
      | loop hc hb => exact keptOf_append hc.kept (StmtElaborates.kept body hb)
  | .doLoop body condition span, inLoop, v, u, core, h => by
      rw [Tree.Stmt.expressions]
      cases h with
      | doLoop hb hc => exact keptOf_append (StmtElaborates.kept body hb) hc.kept
  | .forLoop init condition steps body span, inLoop, v, u, core, h => by
      rw [Tree.Stmt.expressions]
      cases h with
      | forEver hinit hb hacts =>
          have hturn := keptOf_swap (keptOf_of_acts hacts) (StmtElaborates.kept body hb)
          have hall := keptOf_append hinit.kept hturn
          rw [Core.Stmt.literals, blockLiterals_append, Core.blockLiterals, Core.blockLiterals,
            Core.Stmt.literals]
          simpa only [Option.toList_none, List.append_nil, List.append_assoc] using hall
      | forWhile hinit hc hb hacts =>
          have hturn := keptOf_swap (keptOf_of_acts hacts) (StmtElaborates.kept body hb)
          have hall := keptOf_append hinit.kept (keptOf_append hc.kept hturn)
          rw [Core.Stmt.literals, blockLiterals_append, Core.blockLiterals, Core.blockLiterals,
            Core.Stmt.literals]
          simpa only [Option.toList_some, List.append_nil, List.append_assoc] using hall
  | .ret none span, inLoop, v, u, core, h => by
      rw [Tree.Stmt.expressions]
      exact kept_nil _
  | .ret (some e) span, inLoop, v, u, core, h => by
      rw [Tree.Stmt.expressions]
      cases h with
      | ret _ he _ =>
          have hvalue := keptOf_one (Elaborates.kept e he)
          exact hvalue
  | .throw e span, inLoop, v, u, core, h => by
      rw [Tree.Stmt.expressions]
      cases h with
      | throw he _ =>
          have hvalue := keptOf_one (Elaborates.kept e he)
          exact hvalue

theorem BlockElaborates.kept : ∀ (body : List Tree.Stmt) {inLoop : Bool} {v u : Variables}
    {core : List Core.Stmt}, BlockElaborates ctx inLoop v body core u →
      KeptOf (Tree.blockExpressions body) (Core.blockLiterals core)
  | [], inLoop, v, u, core, h => by
      rw [Tree.blockExpressions]
      exact kept_nil _
  | s :: rest, inLoop, v, u, core, h => by
      rw [Tree.blockExpressions]
      cases h with
      | cons hs hrest =>
          exact keptOf_append (StmtElaborates.kept s hs) (BlockElaborates.kept rest hrest)

end

end

end Typing

end Scriptlet
