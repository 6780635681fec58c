import Scriptlet.Core
import Scriptlet.Proofs.Typing.Conformance
import Scriptlet.Typing.Catalogue
import Scriptlet.Typing.Combiner
import Scriptlet.Typing.Scope

namespace Scriptlet

/-!
# Types of core programs

Which core programs make sense: every operation gets values that it can work on, and every variable
has a slot that nothing else uses. Checking does not look at this; it is what checking achieves.
-/

open Code (Handle Literal Routine)

/-- The types of the arguments of a routine and of its result. -/
inductive Code.Routine.Takes : Routine → List DataType → DataType → Prop where
  | extremum {r : Routine} {t} : r ∈ [.max, .min] → t ∈ Catalogue.mathTypes → Takes r [t, t] t
  | abs {t} : t ∈ Catalogue.mathTypes → Takes .abs [t] t
  | pow : Takes .pow [.double, .double] .double
  | real {r : Routine} : r ∈ [.sqrt, .floor, .ceiling, .round] → Takes r [.double] .double
  | parse {t} : Catalogue.isReadable t = true → Takes (.parse t) [.string] t
  | convertTo {name t} : Catalogue.conversionTarget? name = some t →
      Takes (.convertTo t) [.object] t
  | toText {t} : t ≠ .void → Takes .toText [t] .string
  | length : Takes .length [.string] .int
  | charAt : Takes .charAt [.string, .int] .char
  | text {r : Routine} : r ∈ [.toUpper, .toLower, .trim] → Takes r [.string] .string
  | substring : Takes .substring [.string, .int] .string
  | substringOf : Takes .substringOf [.string, .int, .int] .string
  | test {r : Routine} : r ∈ [.contains, .startsWith, .endsWith] → Takes r [.string, .string] .bool
  | indexOf {t} : t ∈ [DataType.char, .string] → Takes .indexOf [.string, t] .int
  | replace {t} : t ∈ [DataType.char, .string] → Takes .replace [.string, t, t] .string
  | isNullOrEmpty : Takes .isNullOrEmpty [.string] .bool
  | concat (n : UInt8) : Takes (.concat n) (List.replicate n.toNat .object) .string
  | newException (c) : Takes (.newException c) [.string] (.exception c)
  | newDefault (c) : Takes (.newDefault c) [] (.exception c)
  | message (c) : Takes .message [.exception c] .string
  | print {r : Routine} : r ∈ [.writeLine, .write] → Takes r [.object] .void
  | writeNewline : Takes .writeNewline [] .void

theorem Code.Routine.Takes.arity_eq {r : Routine} {params : List DataType} {t : DataType}
    (h : r.Takes params t) : r.arity = params.length := by
  cases h with
  | extremum hr | print hr =>
      simp only [List.mem_cons, List.not_mem_nil, or_false] at hr
      rcases hr with rfl | rfl <;> rfl
  | text hr | test hr =>
      simp only [List.mem_cons, List.not_mem_nil, or_false] at hr
      rcases hr with rfl | rfl | rfl <;> rfl
  | real hr =>
      simp only [List.mem_cons, List.not_mem_nil, or_false] at hr
      rcases hr with rfl | rfl | rfl | rfl <;> rfl
  | concat n => simp [Routine.arity]
  | _ => rfl

namespace Combiner

/-- Operators work on values and have values. -/
theorem valued_of_unaryType? {op : UnaryOp} {s t : DataType} (h : unaryType? op s = some t) :
    s ≠ .void ∧ t ≠ .void := by
  constructor
  · rintro rfl
    cases op <;> cases h
  · rintro rfl
    cases op <;> cases s <;> cases h

theorem valued_of_commonType? {s t u : DataType} (h : s.commonType? t = some u) :
    s ≠ .void ∧ t ≠ .void ∧ u ≠ .void := by
  refine ⟨?_, ?_, ?_⟩
  · rintro rfl
    cases h
  · rintro rfl
    cases s <;> cases h
  · rintro rfl
    cases s <;> cases t <;> cases h

theorem valued_of_resultType? {op : BinaryOp} {s t u : DataType}
    (h : resultType? op s t = some u) : s ≠ .void ∧ t ≠ .void ∧ u ≠ .void := by
  cases op with
  | add | sub | mul | div | rem => exact valued_of_commonType? h
  | lt | le | gt | ge =>
      obtain ⟨k, hk, rfl⟩ := Option.map_eq_some_iff.1 h
      exact ⟨(valued_of_commonType? hk).1, (valued_of_commonType? hk).2.1, by decide⟩
  | eq | ne => cases h
  | shl | shr =>
      simp only [resultType?, Option.ite_none_right_eq_some] at h
      obtain ⟨⟨hs, ht, -⟩, hu⟩ := h
      refine ⟨?_, ?_, ?_⟩
      · rintro rfl
        cases hs
      · rintro rfl
        cases ht
      · rintro rfl
        cases s <;> cases hu
  | bitAnd | bitOr | bitXor =>
      simp only [resultType?] at h
      split at h
      · next hb =>
          cases h
          exact ⟨by simp [hb.1], by simp [hb.2], by decide⟩
      · simp only [Option.ite_none_right_eq_some] at h
        exact valued_of_commonType? h.2

theorem valued_of_of? {op : BinaryOp} {c : Combiner} {s t : StaticType} {u : DataType}
    (h : of? op s t = some (c, u)) : s ≠ .of .void ∧ t ≠ .of .void ∧ u ≠ .void := by
  unfold of? at h
  split at h
  · simp only [Option.ite_none_right_eq_some, Option.some.injEq, Prod.mk.injEq] at h
    obtain ⟨hc, -, rfl⟩ := h
    simp only [concatenable, Bool.and_eq_true, bne_iff_ne] at hc
    exact ⟨hc.1.1, hc.2.1, by decide⟩
  · split at h
    · simp only [Option.ite_none_right_eq_some, Option.some.injEq, Prod.mk.injEq] at h
      obtain ⟨heq, -, rfl⟩ := h
      refine ⟨?_, ?_, by decide⟩
      · rintro rfl
        cases t <;> simp [equatable, StaticType.isReference, DataType.isReference,
          DataType.isArithmetic, DataType.isNumeric, DataType.isIntegral] at heq
      · rintro rfl
        cases s <;> simp [equatable, StaticType.isReference, DataType.isReference,
          DataType.isArithmetic, DataType.isNumeric, DataType.isIntegral] at heq
    · split at h
      · next s t =>
          obtain ⟨k, hk, hu⟩ := Option.map_eq_some_iff.1 h
          cases hu
          obtain ⟨hs, ht, hu⟩ := valued_of_resultType? hk
          exact ⟨by simpa using hs, by simpa using ht, hu⟩
      · cases h

end Combiner

namespace Core

/-- The methods that can be called. -/
abbrev Interface :=
  Handle → Option MethodSignature

mutual

/-- The type of an expression, among variables. -/
inductive Expr.HasType (sigs : Interface) (vars : List Local) : Expr → StaticType → Prop where
  | literal {l t} : l.toValue.Conforms t → Expr.HasType sigs vars (.literal l) (.of t)
  | null : Expr.HasType sigs vars (.literal .null) .null
  | load {l} : l ∈ vars → Expr.HasType sigs vars (.load l.slot) (.of l.type)
  | convert {c e s t} : Expr.HasType sigs vars e s → c.Leads s t →
      Expr.HasType sigs vars (.convert c t e) (.of t)
  | settle {c e s t} : Expr.HasType sigs vars e s → c.Leads s t →
      Expr.HasType sigs vars (.settle c t e) (.of t)
  | kept {e s t} : Expr.HasType sigs vars e s → Expr.HasType sigs vars (.settle .identity t e) s
  | unary {op e s t} : Expr.HasType sigs vars e (.of s) → Combiner.unaryType? op s = some t →
      Expr.HasType sigs vars (.unary op e) (.of t)
  | combine {op c left right s t u} : Expr.HasType sigs vars left s →
      Expr.HasType sigs vars right t → Combiner.of? op s t = some (c, u) →
      Expr.HasType sigs vars (.combine c left right) (.of u)
  | andAlso {left right} : Expr.HasType sigs vars left (.of .bool) →
      Expr.HasType sigs vars right (.of .bool) →
      Expr.HasType sigs vars (.andAlso left right) (.of .bool)
  | orElse {left right} : Expr.HasType sigs vars left (.of .bool) →
      Expr.HasType sigs vars right (.of .bool) →
      Expr.HasType sigs vars (.orElse left right) (.of .bool)
  | assign {l e} : l ∈ vars → Expr.HasType sigs vars e (.of l.type) →
      Expr.HasType sigs vars (.assign l.slot e) (.of l.type)
  | advance {l op c u} : l ∈ vars →
      Combiner.of? op (.of l.type) (.of .int) = some (.operator op, u) → c.Leads (.of u) l.type →
      Expr.HasType sigs vars (.advance l.slot op c l.type) (.of l.type)
  | choose {condition yes no s} : Expr.HasType sigs vars condition (.of .bool) →
      Expr.HasType sigs vars yes s → Expr.HasType sigs vars no s →
      Expr.HasType sigs vars (.choose condition yes no) s
  | call {h m args} : sigs h = some m → ArgsHaveTypes sigs vars args m.params →
      Expr.HasType sigs vars (.call h args) (.of m.result)
  | routine {r args params t} : r.Takes params t → ArgsHaveTypes sigs vars args params →
      Expr.HasType sigs vars (.routine r args) (.of t)

/-- Arguments for parameters. -/
inductive ArgsHaveTypes (sigs : Interface) (vars : List Local) :
    List Expr → List DataType → Prop where
  | nil : ArgsHaveTypes sigs vars [] []
  | cons {e es t ts} : t ≠ .void → Expr.HasType sigs vars e (.of t) →
      ArgsHaveTypes sigs vars es ts → ArgsHaveTypes sigs vars (e :: es) (t :: ts)

end

/-- An expression that runs as a statement. -/
def Stmt.IsAction (sigs : Interface) (vars : List Local) (st : Stmt) : Prop :=
  ∃ e s, st = .eval e (s != .of .void) ∧ e.HasType sigs vars s

/-- What can be thrown. -/
inductive Throwable : StaticType → Prop where
  | null : Throwable .null
  | exception (c : ExceptionClass) : Throwable (.of (.exception c))

mutual

/-- Which statements make sense in a method with a result, inside a loop or not, among variables;
and the variables behind the statement. -/
inductive Stmt.HasType (sigs : Interface) (result : DataType) :
    Bool → List Local → Stmt → List Local → Prop where
  | block {inLoop vars body inner outer} : BlockHasType sigs result inLoop vars body inner →
      vars ⊆ outer → outer ⊆ inner → Stmt.HasType sigs result inLoop vars (.block body) outer
  | store {inLoop vars l e} : (∀ l' ∈ vars, l'.slot ≠ l.slot) → l.type ≠ .void →
      e.HasType sigs vars (.of l.type) →
      Stmt.HasType sigs result inLoop vars (.store l.slot e) (l :: vars)
  | eval {inLoop vars e s} : e.HasType sigs vars s →
      Stmt.HasType sigs result inLoop vars (.eval e (s != .of .void)) vars
  | condOnly {inLoop vars condition yes inner} : condition.HasType sigs vars (.of .bool) →
      Stmt.HasType sigs result inLoop vars yes inner →
      Stmt.HasType sigs result inLoop vars (.cond condition yes none) vars
  | condElse {inLoop vars condition yes no inner inner'} : condition.HasType sigs vars (.of .bool) →
      Stmt.HasType sigs result inLoop vars yes inner →
      Stmt.HasType sigs result inLoop vars no inner' →
      Stmt.HasType sigs result inLoop vars (.cond condition yes (some no)) vars
  | loop {inLoop vars condition body inner} : condition.HasType sigs vars (.of .bool) →
      Stmt.HasType sigs result true vars body inner →
      Stmt.HasType sigs result inLoop vars (.loop condition body) vars
  | doLoop {inLoop vars condition body inner} : condition.HasType sigs vars (.of .bool) →
      Stmt.HasType sigs result true vars body inner →
      Stmt.HasType sigs result inLoop vars (.doLoop body condition) vars
  | forLoop {inLoop vars condition body steps inner} :
      (∀ c ∈ condition, c.HasType sigs vars (.of .bool)) →
      Stmt.HasType sigs result true vars body inner →
      (∀ st ∈ steps, st.IsAction sigs vars) →
      Stmt.HasType sigs result inLoop vars (.forLoop condition body steps) vars
  | retVoid {inLoop vars} : result = .void →
      Stmt.HasType sigs result inLoop vars (.ret none) vars
  | ret {inLoop vars e} : result ≠ .void → e.HasType sigs vars (.of result) →
      Stmt.HasType sigs result inLoop vars (.ret (some e)) vars
  | throw {inLoop vars e s} : Throwable s → e.HasType sigs vars s →
      Stmt.HasType sigs result inLoop vars (.throw e) vars
  | leave {vars} : Stmt.HasType sigs result true vars .leave vars
  | next {vars} : Stmt.HasType sigs result true vars .next vars

/-- Statements, one behind the other. -/
inductive BlockHasType (sigs : Interface) (result : DataType) :
    Bool → List Local → List Stmt → List Local → Prop where
  | nil {inLoop vars} : BlockHasType sigs result inLoop vars [] vars
  | cons {inLoop vars s between rest outer} : Stmt.HasType sigs result inLoop vars s between →
      BlockHasType sigs result inLoop between rest outer →
      BlockHasType sigs result inLoop vars (s :: rest) outer

end

/-- Variables stay visible behind a statement. -/
theorem Stmt.HasType.subset {sigs : Interface} {result : DataType} {inLoop : Bool}
    {vars outer : List Local} {st : Stmt} (h : st.HasType sigs result inLoop vars outer) :
    vars ⊆ outer := by
  cases h with
  | block hbody hin hout => exact hin
  | store hfresh hvoid he => exact List.subset_cons_self ..
  | _ => exact List.Subset.refl _

theorem BlockHasType.subset {sigs : Interface} {result : DataType} {inLoop : Bool} :
    ∀ {body : List Stmt} {vars outer : List Local},
    BlockHasType sigs result inLoop vars body outer → vars ⊆ outer
  | [], vars, outer, h => by
      cases h with
      | nil => exact List.Subset.refl _
  | st :: rest, vars, outer, h => by
      cases h with
      | cons hs hrest => exact List.Subset.trans hs.subset hrest.subset

theorem BlockHasType.append {sigs : Interface} {result : DataType} {inLoop : Bool}
    {first rest : List Stmt} {vars between outer : List Local}
    (h : BlockHasType sigs result inLoop vars first between)
    (h' : BlockHasType sigs result inLoop between rest outer) :
    BlockHasType sigs result inLoop vars (first ++ rest) outer := by
  induction first generalizing vars with
  | nil =>
      cases h
      exact h'
  | cons st first ih =>
      cases h with
      | cons hst hfirst => exact .cons hst (ih hfirst)

/-- Expressions that run as statements are a block. -/
theorem blockHasType_actions {sigs : Interface} {vars : List Local} {result : DataType}
    {inLoop : Bool} {steps : List Stmt} (h : ∀ st ∈ steps, st.IsAction sigs vars) :
    BlockHasType sigs result inLoop vars steps vars := by
  induction steps with
  | nil => exact .nil
  | cons st rest ih =>
      obtain ⟨e, t, rfl, he⟩ := h st List.mem_cons_self
      exact .cons (.eval he) (ih fun st' hst' => h st' (List.mem_cons_of_mem _ hst'))

end Core

end Scriptlet
