import Mathlib.Data.List.Nodup
import Scriptlet.Proofs.Core.Evaluation
import Scriptlet.Proofs.Meaning.Tree
import Scriptlet.Proofs.Typing.Scoping

namespace Scriptlet

/-!
# Agreement of trees and core programs

An accepted expression has a meaning, and the core expression that belongs to it computes the same.
The variables of the tree are the slots of the core program.
-/

open Machine (Fault)
open Scriptlet.Tree (Memory Meaning Types)
open Scriptlet.Core (Store evalArgs)

/-- Two computations that come to the same result, with related states behind it. -/
def Agree {α : Type} (R : α → Memory → Store → Prop) :
    Option (Except Fault α × Memory) → Option (Except Fault α × Store) → Prop
  | none, none => True
  | some (.ok a, m), some (.ok b, s) => a = b ∧ R a m s
  | some (.error f, m), some (.error g, s) => f = g ∧ m.output = s.output
  | _, _ => False

namespace Agree

variable {α β : Type} {R : α → Memory → Store → Prop} {R' : β → Memory → Store → Prop}

theorem bind {x : Eval Memory α} {y : Eval Store α} {f : α → Eval Memory β}
    {g : α → Eval Store β} {m : Memory} {s : Store} (h : Agree R (x m) (y s))
    (hf : ∀ a m s, R a m s → Agree R' (f a m) (g a s)) :
    Agree R' ((x >>= f) m) ((y >>= g) s) := by
  rw [Eval.bind_apply, Eval.bind_apply]
  rcases hx : x m with _ | ⟨e | a, m'⟩ <;> rcases hy : y s with _ | ⟨e' | b, s'⟩ <;>
    rw [hx, hy] at h
  · trivial
  · exact h.elim
  · exact h.elim
  · exact h.elim
  · exact h
  · exact h.elim
  · exact h.elim
  · exact h.elim
  · obtain ⟨rfl, hR⟩ := h
    exact hf a m' s' hR

theorem ofExcept {r : Except Fault α} {m : Memory} {s : Store} (houtput : m.output = s.output)
    (h : ∀ a, R a m s) : Agree R (Eval.ofExcept r m) (Eval.ofExcept r s) := by
  cases r with
  | ok a => exact ⟨rfl, h a⟩
  | error f => exact ⟨rfl, houtput⟩

theorem imp {P : α → Memory → Store → Prop} {x : Option (Except Fault α × Memory)}
    {y : Option (Except Fault α × Store)} (h : Agree R x y) (hR : ∀ a m s, R a m s → P a m s) :
    Agree P x y := by
  rcases x with _ | ⟨e | a, m'⟩ <;> rcases y with _ | ⟨e' | b, s'⟩
  · trivial
  · exact h
  · exact h
  · exact h
  · exact h
  · exact h
  · exact h
  · exact h
  · exact ⟨h.1, hR a m' s' h.2⟩

end Agree

namespace Typing

/-- The variables have the values of their slots. -/
structure Mirrors (look : Look) (m : Memory) (s : Store) : Prop where
  vars : ∀ name l, look name = some l → m.vars name = s.slots l.slot
  output : m.output = s.output

/-- Different names have different slots. -/
def Separate (look : Look) : Prop :=
  ∀ name name' l l', look name = some l → look name' = some l' → l.slot = l'.slot → name = name'

theorem Variables.Orderly.separate_look {v : Variables} (h : v.Orderly) : Separate v.look := by
  intro name name' l l' hl hl' hslot
  exact eq_of_slot_eq h.separate hl hl' hslot

/-- Assigning a variable and its slot. -/
theorem Mirrors.assign {look : Look} (hsep : Separate look) {m : Memory} {s : Store}
    (h : Mirrors look m s) {name : String} {l : Local} (hl : look name = some l) (v : Value) :
    Mirrors look (m.assign name v) (s.assign l.slot v) where
  vars name' l' hl' := by
    rw [Memory.vars_assign, Core.Store.slots_assign]
    by_cases hname : name' = name
    · subst hname
      obtain rfl := Option.some.inj (hl'.symm.trans hl)
      rw [if_pos rfl, if_pos rfl]
    · have hslot : l'.slot ≠ l.slot := fun heq => hname (hsep _ _ _ _ hl' hl heq)
      rw [if_neg hname, if_neg hslot]
      exact h.vars name' l' hl'
  output := h.output

/-- What a computation on variables and one on slots have in common: the same results, and the
variables keep the values of their slots. -/
def Matches {α : Type} (look : Look) (x : Eval Memory α) (y : Eval Store α) : Prop :=
  ∀ m s, Mirrors look m s → Agree (fun _ => Mirrors look) (x m) (y s)

namespace Matches

variable {α β : Type} {look : Look}

theorem pure (a : α) : Matches look (pure a) (pure a) :=
  fun _ _ h => ⟨rfl, h⟩

theorem bind {x : Eval Memory α} {y : Eval Store α} {f : α → Eval Memory β}
    {g : α → Eval Store β} (h : Matches look x y) (hf : ∀ a, Matches look (f a) (g a)) :
    Matches look (x >>= f) (y >>= g) :=
  fun m s hm => (h m s hm).bind fun a m s hm => hf a m s hm

theorem ofExcept (r : Except Fault α) : Matches look (Eval.ofExcept r) (Eval.ofExcept r) :=
  fun _ _ h => Agree.ofExcept h.output fun _ => h

theorem gets {name : String} {l : Local} (hl : look name = some l) :
    Matches look (Eval.gets (·.vars name)) (Eval.gets (·.slots l.slot)) :=
  fun _ _ h => ⟨h.vars name l hl, h⟩

theorem update (hsep : Separate look) {name : String} {l : Local} (hl : look name = some l)
    (v : Value) : Matches look (Eval.update (·.assign name v)) (Eval.update (·.assign l.slot v)) :=
  fun _ _ h => ⟨rfl, h.assign hsep hl v⟩

/-- An assignment that comes to a value. -/
theorem assign (hsep : Separate look) {name : String} {l : Local} (hl : look name = some l)
    (v : Value) (a : α) :
    Matches look
      (do
        Eval.update (·.assign name v)
        return a)
      (do
        Eval.update (·.assign l.slot v)
        return a) :=
  (update hsep hl v).bind fun _ => .pure a

theorem ite {x y : Eval Memory α} {x' y' : Eval Store α} (h : Matches look x x')
    (h' : Matches look y y') (b : Bool) :
    Matches look (if b then x else y) (if b then x' else y') := by
  cases b with
  | true => exact h
  | false => exact h'

theorem printing (x : Eval String α) : Matches look (Tree.printing x) (Core.printing x) := by
  intro m s h
  rw [Tree.printing, Core.printing, Eval.onPart_apply, Eval.onPart_apply, h.output]
  rcases x s.output with _ | ⟨f | a, output⟩
  · trivial
  · exact ⟨rfl, rfl⟩
  · exact ⟨rfl, h.vars, rfl⟩

end Matches

/-- The types of the variables. -/
def Look.types (look : Look) : Types :=
  fun name => (look name).map Local.type

theorem Look.isSome_types (look : Look) :
    (look.types · |>.isSome) = (look · |>.isSome) := by
  funext name
  simp [types]

theorem Look.types_eq {look : Look} {name : String} {l : Local} (h : look name = some l) :
    look.types name = some l.type := by
  simp [types, h]

section

variable {ctx : Context} {calls : Calls} {look : Look}

/-- A meaning that fits a checked expression. -/
structure Renders (calls : Calls) (look : Look) (m : Meaning) (t : Typed) : Prop where
  operand : m.operand = t.operand
  value : Matches look m.value (t.expr.eval calls)

theorem Renders.type_eq {m : Meaning} {t : Typed} (h : Renders calls look m t) :
    m.type = t.type :=
  congrArg Operand.type h.operand

theorem Renders.andThen {m : Meaning} {t : Typed} (h : Renders calls look m t)
    (f : Value → Except Fault Value) :
    Matches look (m.andThen f) (do
      let v ← t.expr.eval calls
      Eval.ofExcept (f v)) :=
  h.value.bind fun v => .ofExcept (f v)

theorem Renders.as? {m : Meaning} {t : Typed} (h : Renders calls look m t) {target : DataType}
    {c : Conversion} (hc : Conversion.implicit? t.operand target = some c) :
    ∃ value, m.as? target = some value ∧
      Matches look value ((Core.Expr.convert c target t.expr).eval calls) := by
  refine ⟨m.andThen (c.apply target), ?_, ?_⟩
  · rw [← h.operand] at hc
    simp [Meaning.as?, hc]
  · rw [Core.Expr.eval]
    exact h.andThen _

theorem Renders.test? {m : Meaning} {t : Typed} (h : Renders calls look m t) {c : Conversion}
    (hc : Conversion.implicit? t.operand .bool = some c) :
    ∃ test, m.test? = some test ∧
      Matches look test ((Core.Expr.convert c .bool t.expr).test calls) := by
  obtain ⟨value, hvalue, hmatch⟩ := h.as? hc
  refine ⟨_, by rw [Meaning.test?, hvalue]; rfl, ?_⟩
  exact hmatch.bind fun v => .ofExcept (condition v)

/-- Arguments that fit the parameters are evaluated alike. -/
theorem Fitted.args? {ms : List Meaning} {ts : List Typed} {params : List DataType}
    {es : List Core.Expr} (hms : List.Forall₂ (Renders calls look) ms ts)
    (h : Fitted ts params es) :
    ∃ vs, Meaning.args? ms params = some vs ∧ Matches look vs (evalArgs calls es) := by
  induction h generalizing ms with
  | nil =>
      cases hms
      refine ⟨_, rfl, ?_⟩
      rw [evalArgs]
      exact .pure []
  | convert hc _ ih | settle hc _ ih =>
      cases hms with
      | cons hm hms =>
          obtain ⟨first, hfirst, hmatch⟩ := hm.as? hc
          obtain ⟨rest, hrest, hmatch'⟩ := ih hms
          refine ⟨_, by rw [Meaning.args?, hfirst, hrest]; rfl, ?_⟩
          rw [evalArgs]
          exact hmatch.bind fun v => hmatch'.bind fun vs => .pure (v :: vs)

theorem map_operand_eq {ms : List Meaning} {ts : List Typed}
    (h : List.Forall₂ (Renders calls look) ms ts) :
    ms.map Meaning.operand = ts.map Typed.operand := by
  induction h with
  | nil => rfl
  | cons hm _ ih => rw [List.map_cons, List.map_cons, hm.operand, ih]

theorem renders_ofRoutine {r : Code.Routine} {t : DataType} {vs : Eval Memory (List Value)}
    {es : List Core.Expr} (h : Matches look vs (evalArgs calls es)) :
    Renders calls look (.ofRoutine r t vs) (.of (.routine r es) t) where
  operand := rfl
  value := by
    rw [Typed.of, Core.Expr.eval]
    exact h.bind fun vs => .printing (perform r vs)

theorem renders_ofMethod {h : Code.Handle} {m : MethodSignature} {vs : Eval Memory (List Value)}
    {es : List Core.Expr} (hvs : Matches look vs (evalArgs calls es)) :
    Renders calls look (.ofMethod calls h m vs) (.of (.call h es) m.result) where
  operand := rfl
  value := by
    rw [Typed.of, Core.Expr.eval]
    exact hvs.bind fun vs => .printing (calls h vs)

theorem renders_ofLiteral (k : Code.Literal) (o : Operand) :
    Renders calls look (.ofLiteral k o) ⟨.literal k, o⟩ where
  operand := rfl
  value := by
    rw [Core.Expr.eval]
    exact .pure k.toValue

/-- A receiver in front of arguments. -/
theorem matches_receiver {m : Meaning} {t : Typed} (h : Renders calls look m t)
    {vs : Eval Memory (List Value)} {es : List Core.Expr}
    (hvs : Matches look vs (evalArgs calls es)) :
    Matches look (do
      let v ← m.value
      let vs ← vs
      return v :: vs) (evalArgs calls (t.expr :: es)) := by
  rw [evalArgs]
  exact h.value.bind fun v => hvs.bind fun vs => .pure (v :: vs)

theorem matches_single {m : Meaning} {t : Typed} (h : Renders calls look m t) :
    Matches look (do
      let v ← m.value
      return [v]) (evalArgs calls [t.expr]) := by
  rw [evalArgs, evalArgs]
  exact h.value.bind fun v => .pure [v]

theorem renders_overloaded? {os : List Overload} {ms : List Meaning} {ts : List Typed}
    {o : Overload} {es : List Core.Expr} (hms : List.Forall₂ (Renders calls look) ms ts)
    (ho : overload? os (ts.map Typed.operand) = some o) (hfit : Fitted ts o.params es) :
    ∃ m, Meaning.overloaded? os none ms = some m ∧
      Renders calls look m (.of (.routine o.routine es) o.result) := by
  obtain ⟨vs, hvs, hmatch⟩ := hfit.args? hms
  rw [← map_operand_eq hms] at ho
  refine ⟨_, ?_, renders_ofRoutine hmatch⟩
  simp [Meaning.overloaded?, ho, hvs]

theorem renders_overloadedOf? {os : List Overload} {r : Meaning} {t : Typed} {ms : List Meaning}
    {ts : List Typed} {o : Overload} {es : List Core.Expr} (hr : Renders calls look r t)
    (hms : List.Forall₂ (Renders calls look) ms ts)
    (ho : overload? os (ts.map Typed.operand) = some o) (hfit : Fitted ts o.params es) :
    ∃ m, Meaning.overloaded? os (some r) ms = some m ∧
      Renders calls look m (.of (.routine o.routine (t.expr :: es)) o.result) := by
  obtain ⟨vs, hvs, hmatch⟩ := hfit.args? hms
  rw [← map_operand_eq hms] at ho
  refine ⟨_, ?_, renders_ofRoutine (matches_receiver hr hmatch)⟩
  simp [Meaning.overloaded?, ho, hvs]

/-- A branch of a conditional that stays as it is. -/
theorem Renders.kept {m : Meaning} {t : Typed} (h : Renders calls look m t) :
    m.toward? t.type = some m.value ∧
      Matches look m.value ((Core.Expr.settle .identity .object t.expr).eval calls) := by
  constructor
  · rw [Meaning.toward?, if_pos h.type_eq]
  · rw [Core.Expr.eval_settle_identity]
    exact h.value

/-- A branch of a conditional that converts to the type of the other one. -/
theorem Renders.converted {m : Meaning} {t : Typed} (h : Renders calls look m t)
    {s : StaticType} {c : Conversion} {u : DataType} (hne : t.type ≠ s)
    (hc : branchConversion? t.type s = some (c, u)) :
    ∃ value, m.toward? s = some value ∧
      Matches look value ((Core.Expr.settle c u t.expr).eval calls) := by
  refine ⟨m.andThen (c.apply u), ?_, ?_⟩
  · rw [Meaning.toward?, h.type_eq, if_neg hne, hc]
    rfl
  · rw [Core.Expr.eval]
    exact h.andThen _

theorem Joined.renders {m n : Meaning} {a b : Typed} {x y : Core.Expr} {t : StaticType}
    (ha : Renders calls look m a) (hb : Renders calls look n b) (h : Joined a b x y t) :
    Meaning.common? m.type n.type = some t ∧
      (∃ first, m.toward? t = some first ∧ Matches look first (x.eval calls)) ∧
        ∃ second, n.toward? t = some second ∧ Matches look second (y.eval calls) := by
  rw [Meaning.common?, ha.type_eq, hb.type_eq]
  cases h with
  | same _ heq =>
      refine ⟨if_pos heq, ⟨_, ha.kept⟩, ?_⟩
      rw [heq]
      exact ⟨_, hb.kept⟩
  | toSecond hne hc hnone =>
      refine ⟨?_, ha.converted hne hc, _, hb.kept⟩
      rw [if_neg hne, hc, hnone]
  | toFirst hne hnone hc =>
      refine ⟨?_, ⟨_, ha.kept⟩, hb.converted (Ne.symm hne) hc⟩
      rw [if_neg hne, hc, hnone]

/-! ### The meanings of expressions -/

variable (ctx calls look) in
/-- An expression means what a core expression computes. -/
def Means (e : Tree.Expr) (t : Typed) : Prop :=
  ∃ m, e.meaning? ctx calls look.types = some m ∧ Renders calls look m t

variable (ctx calls look) in
/-- Expressions mean what core expressions compute. -/
def MeanAll (es : List Tree.Expr) (ts : List Typed) : Prop :=
  ∃ ms, Tree.meanings? ctx calls look.types es = some ms ∧
    List.Forall₂ (Renders calls look) ms ts

section

variable {e receiver left right : Tree.Expr} {name : Tree.Ident} {span span' : Text.Span}
  {args : List Tree.Expr} {t r a b : Typed} {ts : List Typed} {es : List Core.Expr}
  {s u : DataType} {i : Nat} {m : MethodSignature} {os : List Overload} {o : Overload}
  {c : Conversion} {l : Local}

theorem means_property {routine : Code.Routine}
    (howner : ownerOf? ctx.signatures.names (look · |>.isSome) receiver = none)
    (hr : Means ctx calls look receiver r) (hs : r.type = .of s)
    (hp : Catalogue.property? s name.name = some (routine, u)) :
    Means ctx calls look (.member receiver name span) (.of (.routine routine [r.expr]) u) := by
  obtain ⟨m, hmeaning, hrenders⟩ := hr
  rw [Means, Tree.Expr.meaning?, Look.isSome_types, howner, hmeaning]
  simp only [Option.bind_eq_bind, Option.bind_some, hrenders.type_eq, hs, StaticType.dataType?_of,
    hp]
  exact ⟨_, rfl, renders_ofRoutine (matches_single hrenders)⟩

theorem means_callHere {name : String} (hlook : look name = none)
    (hm : ctx.cls.method? name = some (i, m)) (hargs : MeanAll ctx calls look args ts)
    (hfit : Fitted ts m.params es) :
    Means ctx calls look (.call (.name name span') args span)
      (.of (.call (.ofPlace ctx.clsIndex i) es) m.result) := by
  obtain ⟨ms, hmeanings, hms⟩ := hargs
  obtain ⟨vs, hvs, hmatch⟩ := hfit.args? hms
  have hnone : look.types name = none := by
    rw [Look.types, hlook]
    rfl
  rw [Means, Tree.Expr.meaning?, hnone, hm, hmeanings]
  simp only [Option.isSome_none, Bool.false_eq_true, if_false, Option.bind_eq_bind,
    Option.bind_some, hvs]
  exact ⟨_, rfl, renders_ofMethod hmatch⟩

theorem means_callThere {k : Nat} {cls : ClassSignature}
    (howner : ownerOf? ctx.signatures.names (look · |>.isSome) receiver = some (.cls k))
    (hcls : ctx.signatures.classes[k]? = some cls) (hm : cls.method? name.name = some (i, m))
    (hargs : MeanAll ctx calls look args ts) (hfit : Fitted ts m.params es) :
    Means ctx calls look (.call (.member receiver name span') args span)
      (.of (.call (.ofPlace k i) es) m.result) := by
  obtain ⟨ms, hmeanings, hms⟩ := hargs
  obtain ⟨vs, hvs, hmatch⟩ := hfit.args? hms
  rw [Means, Tree.Expr.meaning?, Look.isSome_types, hmeanings, howner]
  simp only [Option.bind_eq_bind, Option.bind_some, hcls, hm, hvs]
  exact ⟨_, rfl, renders_ofMethod hmatch⟩

theorem means_routine {owner : Owner}
    (howner : ownerOf? ctx.signatures.names (look · |>.isSome) receiver = some owner)
    (hos : Catalogue.staticMethods? owner name.name = some os)
    (hargs : MeanAll ctx calls look args ts)
    (ho : overload? os (ts.map Typed.operand) = some o) (hfit : Fitted ts o.params es) :
    Means ctx calls look (.call (.member receiver name span') args span)
      (.of (.routine o.routine es) o.result) := by
  obtain ⟨ms, hmeanings, hms⟩ := hargs
  obtain ⟨m, hm, hrenders⟩ := renders_overloaded? hms ho hfit
  rw [Means, Tree.Expr.meaning?, Look.isSome_types, hmeanings, howner]
  refine ⟨m, ?_, hrenders⟩
  simp only [Option.bind_eq_bind, Option.bind_some]
  split
  · next k heq =>
      cases heq
      cases hos
  · next owner _ heq =>
      cases heq
      rw [hos]
      exact hm
  · next heq => cases heq

theorem means_routineOf
    (howner : ownerOf? ctx.signatures.names (look · |>.isSome) receiver = none)
    (hr : Means ctx calls look receiver r) (hs : r.type = .of s)
    (hos : Catalogue.methods? s name.name = some os) (hargs : MeanAll ctx calls look args ts)
    (ho : overload? os (ts.map Typed.operand) = some o) (hfit : Fitted ts o.params es) :
    Means ctx calls look (.call (.member receiver name span') args span)
      (.of (.routine o.routine (r.expr :: es)) o.result) := by
  obtain ⟨ms, hmeanings, hms⟩ := hargs
  obtain ⟨n, hmeaning, hreceiver⟩ := hr
  obtain ⟨m, hm, hrenders⟩ := renders_overloadedOf? hreceiver hms ho hfit
  rw [Means, Tree.Expr.meaning?, Look.isSome_types, hmeanings, howner, hmeaning]
  refine ⟨m, ?_, hrenders⟩
  simp only [Option.bind_eq_bind, Option.bind_some, hreceiver.type_eq, hs, StaticType.dataType?_of,
    hos]
  exact hm

theorem means_index {index : Tree.Expr} (hr : Means ctx calls look receiver r)
    (hs : r.type = .of .string) (hi : Means ctx calls look index a)
    (hc : Conversion.implicit? a.operand .int = some c) :
    Means ctx calls look (.index receiver index span)
      (.of (.routine .charAt [r.expr, .convert c .int a.expr]) .char) := by
  obtain ⟨m, hmeaning, hreceiver⟩ := hr
  obtain ⟨n, hmeaning', hindex⟩ := hi
  obtain ⟨place, hplace, hmatch⟩ := hindex.as? hc
  rw [Means, Tree.Expr.meaning?, hmeaning, hmeaning']
  simp only [Option.bind_eq_bind, Option.bind_some, hplace, hreceiver.type_eq, hs, if_true]
  refine ⟨_, rfl, renders_ofRoutine ?_⟩
  simp only [evalArgs, bind_assoc, pure_bind]
  exact hreceiver.value.bind fun v => hmatch.bind fun w => .pure [v, w]

theorem means_newDefault {type : Tree.TypeRef} {cls : ExceptionClass}
    (hd : ctx.signatures.names.resolve type = .ok (.exception cls)) :
    Means ctx calls look (.new type [] span)
      (.of (.routine (.newDefault cls) []) (.exception cls)) := by
  rw [Means, Tree.Expr.meaning?, Tree.meanings?, hd]
  refine ⟨_, rfl, renders_ofRoutine ?_⟩
  rw [evalArgs]
  exact .pure []

theorem means_newMessage {type : Tree.TypeRef} {cls : ExceptionClass}
    (hd : ctx.signatures.names.resolve type = .ok (.exception cls))
    (he : Means ctx calls look e a) (hfit : Fitted [a] [.string] es) :
    Means ctx calls look (.new type [e] span)
      (.of (.routine (.newException cls) es) (.exception cls)) := by
  obtain ⟨m, hmeaning, hrenders⟩ := he
  obtain ⟨vs, hvs, hmatch⟩ := hfit.args? (.cons hrenders .nil)
  rw [Means, Tree.Expr.meaning?, Tree.meanings?, hmeaning, Tree.meanings?, hd]
  simp only [Option.bind_eq_bind, Option.bind_some, Option.pure_def, hvs]
  exact ⟨_, rfl, renders_ofRoutine hmatch⟩

theorem means_plus (he : Means ctx calls look e a) (hs : a.type = .of s)
    (hp : s.promoted? = some u) :
    Means ctx calls look (.unary .plus e span)
      ⟨.convert (promotion u s) u a.expr, ⟨.of u, a.operand.constant⟩⟩ := by
  obtain ⟨m, hmeaning, hrenders⟩ := he
  rw [Means, Tree.Expr.meaning?, hmeaning]
  simp only [Option.bind_eq_bind, Option.bind_some, hrenders.type_eq, hs, StaticType.dataType?_of,
    hp]
  refine ⟨_, rfl, ?_, ?_⟩
  · rw [hrenders.operand]
  · rw [Core.Expr.eval]
    exact hrenders.andThen _

theorem means_unary {op : UnaryOp}
    (hop : ∀ value long s, op = .neg → e = .literal (.int value long) s → False)
    (he : Means ctx calls look e a) (hs : a.type = .of s)
    (hu : Combiner.unaryType? op s = some u) :
    Means ctx calls look (.unary (.strict op) e span) (.of (.unary op a.expr) u) := by
  obtain ⟨m, hmeaning, hrenders⟩ := he
  rw [Means, Tree.Expr.meaning?, hmeaning]
  · simp only [Option.bind_eq_bind, Option.bind_some, hrenders.type_eq, hs,
      StaticType.dataType?_of, hu]
    refine ⟨_, rfl, rfl, ?_⟩
    rw [Typed.of, Core.Expr.eval]
    exact hrenders.andThen _
  · exact fun value long s hlit hneg => hop value long s hneg hlit

theorem means_andAlso (hl : Means ctx calls look left a) (hr : Means ctx calls look right b)
    (hlt : a.type = .of .bool) (hrt : b.type = .of .bool) :
    Means ctx calls look (.binary .andAlso left right span)
      (.of (.andAlso a.expr b.expr) .bool) := by
  obtain ⟨m, hleft, hrendersl⟩ := hl
  obtain ⟨n, hright, hrendersr⟩ := hr
  rw [Means, Tree.Expr.meaning?, hleft, hright]
  simp only [Option.bind_eq_bind, Option.bind_some, hrendersl.type_eq, hrendersr.type_eq, hlt, hrt,
    and_self, if_true]
  refine ⟨_, rfl, rfl, ?_⟩
  rw [Typed.of, Core.Expr.eval]
  refine hrendersl.value.bind fun v => (Matches.ofExcept _).bind fun settled => ?_
  exact hrendersr.value.ite (.pure _) settled

theorem means_orElse (hl : Means ctx calls look left a) (hr : Means ctx calls look right b)
    (hlt : a.type = .of .bool) (hrt : b.type = .of .bool) :
    Means ctx calls look (.binary .orElse left right span)
      (.of (.orElse a.expr b.expr) .bool) := by
  obtain ⟨m, hleft, hrendersl⟩ := hl
  obtain ⟨n, hright, hrendersr⟩ := hr
  rw [Means, Tree.Expr.meaning?, hleft, hright]
  simp only [Option.bind_eq_bind, Option.bind_some, hrendersl.type_eq, hrendersr.type_eq, hlt, hrt,
    and_self, if_true]
  refine ⟨_, rfl, rfl, ?_⟩
  rw [Typed.of, Core.Expr.eval]
  refine hrendersl.value.bind fun v => (Matches.ofExcept _).bind fun settled => ?_
  exact Matches.ite (.pure _) hrendersr.value settled

theorem means_binary {op : BinaryOp} {k : Combiner} (hl : Means ctx calls look left a)
    (hr : Means ctx calls look right b) (hk : Combiner.of? op a.type b.type = some (k, u)) :
    Means ctx calls look (.binary (.strict op) left right span)
      (.of (.combine k a.expr b.expr) u) := by
  obtain ⟨m, hleft, hrendersl⟩ := hl
  obtain ⟨n, hright, hrendersr⟩ := hr
  rw [Means, Tree.Expr.meaning?, hleft, hright]
  simp only [Option.bind_eq_bind, Option.bind_some, hrendersl.type_eq, hrendersr.type_eq, hk]
  refine ⟨_, rfl, rfl, ?_⟩
  rw [Typed.of, Core.Expr.eval]
  exact hrendersl.value.bind fun v => hrendersr.value.bind fun w => .ofExcept _

theorem means_conditional {condition : Tree.Expr} {x y : Core.Expr} {type : StaticType}
    (hd : Means ctx calls look condition t) (hk : Conversion.implicit? t.operand .bool = some c)
    (ha : Means ctx calls look left a) (hb : Means ctx calls look right b)
    (hj : Joined a b x y type) :
    Means ctx calls look (.conditional condition left right span)
      ⟨.choose (.convert c .bool t.expr) x y, .ofType type⟩ := by
  obtain ⟨m, hcondition, hrenders⟩ := hd
  obtain ⟨n, hyes, hrendersa⟩ := ha
  obtain ⟨n', hno, hrendersb⟩ := hb
  obtain ⟨test, htest, hmatch⟩ := hrenders.test? hk
  obtain ⟨hcommon, ⟨first, hfirst, hmatch'⟩, second, hsecond, hmatch''⟩ :=
    hj.renders hrendersa hrendersb
  rw [Means, Tree.Expr.meaning?, hcondition, hyes, hno]
  simp only [Option.bind_eq_bind, Option.bind_some, htest, hcommon, hfirst, hsecond]
  refine ⟨_, rfl, rfl, ?_⟩
  rw [Core.Expr.test] at hmatch
  rw [Core.Expr.eval, ← bind_assoc]
  exact hmatch.bind (hmatch'.ite hmatch'')

theorem means_cast {type : Tree.TypeRef} (hd : ctx.signatures.names.resolve type = .ok u)
    (he : Means ctx calls look e a) (hc : Conversion.explicit? a.operand u = some c) :
    Means ctx calls look (.cast type e span)
      ⟨.convert c u a.expr, ⟨.of u, if u = .int then a.operand.constant else none⟩⟩ := by
  obtain ⟨m, hmeaning, hrenders⟩ := he
  rw [Means, Tree.Expr.meaning?, hmeaning, hd]
  simp only [Option.bind_eq_bind, Option.bind_some, hrenders.operand, hc]
  refine ⟨_, rfl, rfl, ?_⟩
  rw [Core.Expr.eval]
  exact hrenders.andThen _

/-! ### Changes of variables -/

variable {name : String}

theorem means_assign (hsep : Separate look) (hl : look name = some l)
    (he : Means ctx calls look e a) (hc : Conversion.implicit? a.operand l.type = some c) :
    Means ctx calls look (.assign none (.name name span') e span)
      (.of (.assign l.slot (.convert c l.type a.expr)) l.type) := by
  obtain ⟨m, hmeaning, hrenders⟩ := he
  obtain ⟨value, hvalue, hmatch⟩ := hrenders.as? hc
  rw [Means, Tree.Expr.meaning?, Look.types_eq hl, hmeaning]
  simp only [Option.bind_eq_bind, Option.bind_some, hvalue]
  refine ⟨_, rfl, rfl, ?_⟩
  rw [Typed.of, Core.Expr.eval]
  exact hmatch.bind fun v => .assign hsep hl v v

theorem means_compound {op : BinaryOp} {k : Combiner} (hsep : Separate look)
    (hl : look name = some l) (he : Means ctx calls look e a)
    (hk : Combiner.of? op (.of l.type) a.type = some (k, u))
    (hc : compoundConversion? op u a.operand l.type = some c) :
    Means ctx calls look (.assign (some op) (.name name span') e span)
      (.of (.assign l.slot (.convert c l.type (.combine k (.load l.slot) a.expr))) l.type) := by
  obtain ⟨m, hmeaning, hrenders⟩ := he
  rw [Means, Tree.Expr.meaning?, Look.types_eq hl, hmeaning]
  simp only [Option.bind_eq_bind, Option.bind_some, hrenders.type_eq, hk, hrenders.operand, hc]
  refine ⟨_, rfl, rfl, ?_⟩
  simp only [Typed.of, Core.Expr.eval, bind_assoc]
  refine (Matches.gets hl).bind fun old => hrenders.value.bind fun v => ?_
  refine (Matches.ofExcept _).bind fun new => (Matches.ofExcept _).bind fun new => ?_
  exact .assign hsep hl new new

theorem means_stepBefore {increment : Bool} (hsep : Separate look) (hl : look name = some l)
    (hu : l.type.commonType? .int = some u) :
    Means ctx calls look (.step increment true (.name name span') span)
      (.of (.assign l.slot (.convert (promotion u l.type) l.type
        (.combine (.operator (stepOp increment)) (.load l.slot) (.literal (.int 1))))) l.type) := by
  rw [Means, Tree.Expr.meaning?, Look.types_eq hl]
  simp only [Option.bind_eq_bind, Option.bind_some, hu]
  refine ⟨_, rfl, rfl, ?_⟩
  simp only [Typed.of, Core.Expr.eval, bind_assoc, pure_bind]
  refine (Matches.gets hl).bind fun old => (Matches.ofExcept _).bind fun new => ?_
  exact (Matches.ofExcept _).bind fun new => .assign hsep hl new new

theorem means_stepBehind {increment : Bool} (hsep : Separate look) (hl : look name = some l)
    (hu : l.type.commonType? .int = some u) :
    Means ctx calls look (.step increment false (.name name span') span)
      (.of (.advance l.slot (stepOp increment) (promotion u l.type) l.type) l.type) := by
  rw [Means, Tree.Expr.meaning?, Look.types_eq hl]
  simp only [Option.bind_eq_bind, Option.bind_some, hu]
  refine ⟨_, rfl, rfl, ?_⟩
  rw [Typed.of, Core.Expr.eval]
  refine (Matches.gets hl).bind fun old => (Matches.ofExcept _).bind fun new => ?_
  exact (Matches.ofExcept _).bind fun new => .assign hsep hl new old

end

variable (calls)

mutual

/-- An elaborated expression means what its core expression computes. -/
theorem Elaborates.renders (hsep : Separate look) : ∀ (e : Tree.Expr) {t : Typed},
    Elaborates ctx look e t → Means ctx calls look e t
  | .literal l span, t, h => by
      cases h with
      | literal hl => exact ⟨_, Tree.Expr.meaning?_literal hl, renders_ofLiteral _ _⟩
  | .name name span, t, h => by
      rw [Means, Tree.Expr.meaning?]
      cases h with
      | name hl =>
          rw [Look.types_eq hl]
          refine ⟨_, rfl, rfl, ?_⟩
          rw [Typed.of, Core.Expr.eval]
          exact .gets hl
  | .type _ _, t, h => nomatch h
  | .member receiver name span, t, h => by
      cases h with
      | constant howner hk =>
          rw [Means, Tree.Expr.meaning?, Look.isSome_types, howner]
          dsimp only
          rw [hk]
          exact ⟨_, rfl, renders_ofLiteral _ _⟩
      | property howner hr hs hp =>
          exact means_property howner (Elaborates.renders hsep receiver hr) hs hp
  | .call (.name name span') args span, t, h => by
      cases h with
      | callHere hlook hm _ hargs hfit =>
          exact means_callHere hlook hm (ElaborateAll.renders hsep args hargs) hfit
  | .call (.member receiver name span') args span, t, h => by
      cases h with
      | callThere howner hc hm _ hargs hfit =>
          exact means_callThere howner hc hm (ElaborateAll.renders hsep args hargs) hfit
      | routine howner hos hargs ho hfit =>
          exact means_routine howner hos (ElaborateAll.renders hsep args hargs) ho hfit
      | routineOf howner hr hs hos hargs ho hfit =>
          exact means_routineOf howner (Elaborates.renders hsep receiver hr) hs hos
            (ElaborateAll.renders hsep args hargs) ho hfit
  | .call (.literal _ _) _ _, t, h | .call (.type _ _) _ _, t, h | .call (.call _ _ _) _ _, t, h
  | .call (.index _ _ _) _ _, t, h | .call (.new _ _ _) _ _, t, h
  | .call (.unary _ _ _) _ _, t, h | .call (.binary _ _ _ _) _ _, t, h
  | .call (.assign _ _ _ _) _ _, t, h | .call (.step _ _ _ _) _ _, t, h
  | .call (.conditional _ _ _ _) _ _, t, h | .call (.cast _ _ _) _ _, t, h => nomatch h
  | .index receiver index span, t, h => by
      cases h with
      | index hr hs hi hc =>
          exact means_index (Elaborates.renders hsep receiver hr) hs
            (Elaborates.renders hsep index hi) hc
  | .new type [] span, t, h => by
      cases h with
      | newDefault hd => exact means_newDefault hd
  | .new type (message :: rest) span, t, h => by
      cases h with
      | newMessage hd hm hfit =>
          exact means_newMessage hd (Elaborates.renders hsep message hm) hfit
  | .unary .plus operand span, t, h => by
      cases h with
      | plus he hs hp => exact means_plus (Elaborates.renders hsep operand he) hs hp
  | .unary (.strict op) operand span, t, h => by
      cases h with
      | negative hk =>
          rw [Means, Tree.Expr.meaning?, hk]
          exact ⟨_, rfl, renders_ofLiteral _ _⟩
      | unary hop he hs hu => exact means_unary hop (Elaborates.renders hsep operand he) hs hu
  | .binary .andAlso left right span, t, h => by
      cases h with
      | andAlso hl hr hlt hrt =>
          exact means_andAlso (Elaborates.renders hsep left hl) (Elaborates.renders hsep right hr)
            hlt hrt
  | .binary .orElse left right span, t, h => by
      cases h with
      | orElse hl hr hlt hrt =>
          exact means_orElse (Elaborates.renders hsep left hl) (Elaborates.renders hsep right hr)
            hlt hrt
  | .binary (.strict op) left right span, t, h => by
      cases h with
      | binary hl hr hc =>
          exact means_binary (Elaborates.renders hsep left hl) (Elaborates.renders hsep right hr) hc
  | .assign op target value span, t, h => by
      cases h with
      | assign hl he hc => exact means_assign hsep hl (Elaborates.renders hsep value he) hc
      | compound hl he hk hc =>
          exact means_compound hsep hl (Elaborates.renders hsep value he) hk hc
  | .step increment isPrefix target span, t, h => by
      cases h with
      | stepBefore hl hu => exact means_stepBefore hsep hl hu
      | stepBehind hl hu => exact means_stepBehind hsep hl hu
  | .conditional condition yes no span, t, h => by
      cases h with
      | conditional hd hk ha hb hj =>
          exact means_conditional (Elaborates.renders hsep condition hd) hk
            (Elaborates.renders hsep yes ha) (Elaborates.renders hsep no hb) hj
  | .cast type operand span, t, h => by
      cases h with
      | cast hd he hc _ => exact means_cast hd (Elaborates.renders hsep operand he) hc

theorem ElaborateAll.renders (hsep : Separate look) : ∀ (es : List Tree.Expr) {ts : List Typed},
    ElaborateAll ctx look es ts → MeanAll ctx calls look es ts
  | [], ts, h => by
      rw [MeanAll, Tree.meanings?]
      cases h with
      | nil => exact ⟨[], rfl, .nil⟩
  | e :: es, ts, h => by
      cases h with
      | cons he hes =>
          obtain ⟨m, hmeaning, hrenders⟩ := Elaborates.renders hsep e he
          obtain ⟨ms, hmeanings, hms⟩ := ElaborateAll.renders hsep es hes
          exact ⟨_, Tree.meanings?_cons hmeaning hmeanings, .cons hrenders hms⟩

end

end

end Typing

end Scriptlet
