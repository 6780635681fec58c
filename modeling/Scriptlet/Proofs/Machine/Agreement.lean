import Scriptlet.Proofs.Core.Simulation
import Scriptlet.Proofs.Machine.Binding
import Scriptlet.Proofs.Typing.Catalogue

namespace Scriptlet

/-!
# Types and instructions agree

Operators, conversions and library routines are listed twice: for static types, with the types of
their results, and for values, as instructions. Every entry of the first kind is kept by the second:
on operands of the listed types the instruction answers with a value of the listed result, or fails
for a reason that a well-formed program can have. The widening of arguments is a third list, which
allows exactly what an implicit conversion allows.
-/

open Code (Instr Routine)

namespace Machine

/-- Where a run goes on with an answer to operands that have been taken off the stack. -/
def settle (stack : Array Value) (frames : List Frame) (output : String) :
    Except Fault Reply → Step
  | .ok (.value v) => .next ⟨stack.push v, frames, output⟩
  | .ok (.print text) => .next ⟨stack, frames, output ++ text⟩
  | .error f => .failed f output

/-- Wherever an instruction is executed, it takes operands off the stack, the last one first, and
gives an answer to them. -/
def Performs (i : Instr) (operands : List Value) (answer : Except Fault Reply) : Prop :=
  ∀ (p : Program) (limit : Nat) (m : Code.Method) (stack : Array Value) (frame : Frame)
    (rest : List Frame) (output : String),
    execute p limit m i (stack ++ operands.toArray) frame rest output =
      settle stack (frame :: rest) output answer

theorem settle_value (stack : Array Value) (frames : List Frame) (output : String)
    (x : Except Fault Value) :
    settle stack frames output (x.map .value) = push stack frames output x := by
  cases x <;> rfl

theorem performs_combine (c : Combiner) (v w : Value) :
    Performs c.instr [v, w] ((c.apply v w).map .value) := by
  intro p limit m stack frame rest output
  have hstack : stack ++ [v, w].toArray = (stack.push v).push w := rfl
  rw [hstack, settle_value]
  cases c with
  | concat =>
      simp only [Combiner.instr, execute, withTop, Array.back?_push, Array.pop_push]
      rfl
  | operator op =>
      simp only [Combiner.instr, execute, withTop, Array.back?_push, Array.pop_push, Combiner.apply]

theorem performs_unary (op : UnaryOp) (v : Value) :
    Performs (.unary op) [v] ((unary op v).map .value) := by
  intro p limit m stack frame rest output
  have hstack : stack ++ [v].toArray = stack.push v := rfl
  rw [hstack, settle_value]
  simp only [execute, withTop, Array.back?_push, Array.pop_push]

theorem performs_convert (c : Conversion) (t : DataType) (v : Value) :
    Performs (c.instr t) [v] ((c.apply t v).map .value) := by
  intro p limit m stack frame rest output
  have hstack : stack ++ [v].toArray = stack.push v := rfl
  rw [hstack, settle_value]
  cases c with
  | identity | reference => rfl
  | numeric | unbox =>
      simp only [Conversion.instr, execute, withTop, Array.back?_push, Array.pop_push,
        Conversion.apply]

theorem performs_routine {r : Routine} {args : List Value} (h : r.arity = args.length) :
    Performs (.routine r) args (call r args) := by
  intro p limit m stack frame rest output
  simp only [execute, Core.withOperands_append h]
  rcases call r args with f | ⟨v | text⟩
  · rfl
  · rfl
  · rfl

/-- An instruction answers to operands with a value of a type, or with a text to print if the type
is `void`, or the run fails without a defect of the program. -/
def Answers (i : Instr) (operands : List Value) (t : DataType) : Prop :=
  ∃ answer, Performs i operands answer ∧ Safe (Reply.Fits t) answer

theorem answers_combine {op : BinaryOp} {s t : StaticType} {c : Combiner} {u : DataType}
    (h : Combiner.of? op s t = some (c, u)) {v w : Value} (hv : v.ConformsTo s)
    (hw : w.ConformsTo t) : Answers c.instr [v, w] u :=
  ⟨_, performs_combine c v w,
    (safe_apply_combiner hv hw h).reply (Combiner.valued_of_of? h).2.2⟩

theorem answers_unary {op : UnaryOp} {s t : DataType} (h : Combiner.unaryType? op s = some t)
    {v : Value} (hv : v.Conforms s) : Answers (.unary op) [v] t :=
  ⟨_, performs_unary op v, (safe_unary hv h).reply (Combiner.valued_of_unaryType? h).2⟩

theorem answers_routine {r : Routine} {params : List DataType} {t : DataType}
    (h : r.Takes params t) {args : List Value} (hargs : ConformAll args params) :
    Answers (.routine r) args t :=
  ⟨_, performs_routine (h.arity_eq.trans hargs.length_eq.symm), safe_call h hargs⟩

/-! ### Conversions -/

/-- A value of a type, or the failure of a cast. -/
def Converted (t : DataType) : Except Fault Value → Prop
  | .ok w => w.Conforms t
  | .error f => ∃ e, f = .failed e ∧
      (e.exceptionClass = .invalidCast ∨ e.exceptionClass = .nullReference)

theorem converted_unbox {v : Value} (hv : v ≠ .void) (t : DataType) :
    Converted t (unbox v t) := by
  have hsafe := safe_unbox hv t
  cases hunbox : unbox v t with
  | ok w =>
      rw [hunbox] at hsafe
      exact hsafe
  | error f =>
      unfold unbox at hunbox
      split at hunbox
      · cases hunbox
      · split at hunbox
        · split at hunbox <;> cases hunbox
          exact ⟨_, rfl, .inr rfl⟩
        · split at hunbox <;> cases hunbox
          exact ⟨_, rfl, .inl rfl⟩

/-- No implicit conversion steps down from `object`. -/
theorem implicit?_ne_unbox (o : Operand) (t : DataType) :
    Conversion.implicit? o t ≠ some .unbox := by
  obtain ⟨s, n⟩ := o
  unfold Conversion.implicit?
  repeat' split
  all_goals simp

/-- Implicit conversions do not fail. -/
theorem exists_apply_of_implicit? {o : Operand} {t : DataType} {c : Conversion}
    (ho : o.type ≠ .unknown) (h : Conversion.implicit? o t = some c) {v : Value}
    (hv : v.ConformsTo o.type) : ∃ w, c.apply t v = .ok w ∧ w.Conforms t := by
  have hleads := Conversion.leads_of_implicit? ho h
  have hsafe := safe_apply_conversion hleads hv
  cases c with
  | identity | reference => exact ⟨v, rfl, hsafe⟩
  | numeric =>
      generalize o.type = s at hleads hv
      cases hleads with
      | numeric hs ht => exact exists_cast hv hs ht
  | unbox => exact absurd h (implicit?_ne_unbox o t)

theorem converted_of_leads {c : Conversion} {s : StaticType} {t : DataType} (h : c.Leads s t)
    {v : Value} (hv : v.ConformsTo s) : Converted t (c.apply t v) := by
  have hsafe := safe_apply_conversion h hv
  cases h with
  | identity | null | widen => exact hsafe
  | numeric hs ht =>
      obtain ⟨w, hw, hconforms⟩ := exists_cast hv hs ht
      rw [Conversion.apply, hw]
      exact hconforms
  | unbox => exact converted_unbox hv t

end Machine

/-- The static type of an expression that is known to have a value: null has the type of the literal
`null`. -/
def Value.staticType (v : Value) : StaticType :=
  if v.isNull then .null else .of v.dataType

theorem Value.conformsTo_staticType (v : Value) : v.ConformsTo v.staticType := by
  unfold Value.staticType
  split
  next h =>
    cases v <;> cases h
    rfl
  next h => exact Machine.conforms_dataType (by simpa using h)

namespace Machine

/-- Without a known constant, a type converts to itself and to what it widens to. -/
theorem implicit?_ofType (s t : DataType) :
    Conversion.implicit? (.ofType (.of s)) t =
      if s = t then some .identity
      else if s.widensTo t then some (if t.isNumeric then .numeric else .reference)
      else none := by
  cases s <;> rfl

/-- An argument is widened by the implicit conversion from its own type, if there is one. -/
theorem widen_eq {v : Value} (hv : v ≠ .void) (t : DataType) :
    widen v t = (Conversion.implicit? (.ofType v.staticType) t).bind fun c =>
      (c.apply t v).toOption := by
  by_cases hnull : v.isNull = true
  · obtain rfl : v = .null := by cases v <;> first | rfl | cases hnull
    cases t <;> rfl
  have hvoid : v.dataType ≠ .void := fun h => hv (by cases v <;> first | rfl | cases h)
  rw [widen, if_neg hnull, Value.staticType, if_neg hnull, implicit?_ofType]
  by_cases hsame : v.dataType = t
  · have hself : v.dataType.widensTo t = true := by simp [DataType.widensTo, hsame]
    rw [if_neg (by simp [hvoid, hself]), if_pos (by simp [hsame]), if_pos hsame]
    rfl
  rw [if_neg hsame]
  by_cases hwide : v.dataType.widensTo t = true
  · rw [if_neg (by simp [hvoid, hwide]), if_pos hwide]
    by_cases hnumeric : t.isNumeric = true
    · rw [if_neg (by simp [hsame, hnumeric]), if_pos hnumeric]
      rfl
    · rw [if_pos (by simp [hnumeric]), if_neg hnumeric]
      rfl
  · rw [if_pos (by simp [hwide]), if_neg hwide]
    rfl

theorem staticType_ne_unknown (v : Value) : v.staticType ≠ .unknown := by
  unfold Value.staticType
  split <;> simp

theorem widen_eq_some_iff {v w : Value} (hv : v ≠ .void) (t : DataType) :
    widen v t = some w ↔ ∃ c, Conversion.implicit? (.ofType v.staticType) t = some c ∧
      c.apply t v = .ok w := by
  rw [widen_eq hv, Option.bind_eq_some_iff]
  refine exists_congr fun c => and_congr_right fun _ => ?_
  cases c.apply t v <;> simp [Except.toOption]

theorem isSome_widen {v : Value} (hv : v ≠ .void) (t : DataType) :
    (widen v t).isSome ↔ (Conversion.implicit? (.ofType v.staticType) t).isSome := by
  constructor
  · intro h
    obtain ⟨w, hw⟩ := Option.isSome_iff_exists.1 h
    obtain ⟨c, hc, -⟩ := (widen_eq_some_iff hv t).1 hw
    exact Option.isSome_iff_exists.2 ⟨c, hc⟩
  · intro h
    obtain ⟨c, hc⟩ := Option.isSome_iff_exists.1 h
    obtain ⟨w, hw, -⟩ :=
      exists_apply_of_implicit? (staticType_ne_unknown v) hc v.conformsTo_staticType
    exact Option.isSome_iff_exists.2 ⟨w, (widen_eq_some_iff hv t).2 ⟨c, hc, hw⟩⟩

end Machine

/-- A routine of the catalogue, with its operands, the receiver first, and its result. -/
inductive Catalogue.Lists : Routine → List DataType → DataType → Prop where
  | static {owner : Owner} {name : String} {overloads : List Overload} {o : Overload} :
      staticMethods? owner name = some overloads → o ∈ overloads → Lists o.routine o.params o.result
  | method {t : DataType} {name : String} {overloads : List Overload} {o : Overload} :
      methods? t name = some overloads → o ∈ overloads → Lists o.routine (t :: o.params) o.result
  | property {s t : DataType} {name : String} {r : Routine} :
      property? s name = some (r, t) → Lists r [s] t

theorem Catalogue.Lists.takes {r : Routine} {params : List DataType} {t : DataType}
    (h : Lists r params t) : r.Takes params t := by
  cases h with
  | static hos ho => exact takes_staticMethods? hos ho
  | method hos ho => exact takes_methods? hos ho
  | property hr => exact takes_property? hr

/-- The tables of types are kept by the instructions: an operator, with its operands of the types
it takes, and a listed routine answer with a value of the result type; a conversion makes a value of
its target or fails as a cast does; and an argument widens to a type just if its own type converts
to it implicitly, and to the value which that conversion makes. -/
theorem Machine.instructions_keep_types :
    (∀ op s t c u, Combiner.of? op s t = some (c, u) → ∀ v w : Value, v.ConformsTo s →
        w.ConformsTo t → Answers c.instr [v, w] u) ∧
      (∀ op s t, Combiner.unaryType? op s = some t → ∀ v : Value, v.Conforms s →
        Answers (.unary op) [v] t) ∧
      (∀ o t c, Conversion.implicit? o t = some c ∨ Conversion.explicit? o t = some c →
        ∀ v : Value, v.ConformsTo o.type →
          ∃ x, Performs (c.instr t) [v] (x.map .value) ∧ Converted t x) ∧
      (∀ v t, v ≠ .void →
        ((widen v t).isSome ↔ (Conversion.implicit? (.ofType v.staticType) t).isSome) ∧
          ∀ w c, widen v t = some w → Conversion.implicit? (.ofType v.staticType) t = some c →
            Performs (c.instr t) [v] (.ok (.value w))) ∧
      ∀ r params t, Catalogue.Lists r params t → ∀ args, ConformAll args params →
        Answers (.routine r) args t := by
  refine ⟨?_, ?_, ?_, ?_, ?_⟩
  · intro op s t c u h v w hv hw
    exact answers_combine h hv hw
  · intro op s t h v hv
    exact answers_unary h hv
  · intro o t c h v hv
    have ho : o.type ≠ .unknown := by
      intro heq
      rw [heq] at hv
      exact hv
    have hleads : c.Leads o.type t := by
      rcases h with h | h
      · exact Conversion.leads_of_implicit? ho h
      · exact Conversion.leads_of_explicit? ho h
    exact ⟨_, performs_convert c t v, converted_of_leads hleads hv⟩
  · intro v t hv
    refine ⟨isSome_widen hv t, fun w c hw hc => ?_⟩
    obtain ⟨c', hc', happly⟩ := (widen_eq_some_iff hv t).1 hw
    obtain rfl := Option.some.inj (hc'.symm.trans hc)
    have hperforms := performs_convert c' t v
    rwa [happly] at hperforms
  · intro r params t h args hargs
    exact answers_routine h.takes hargs

/-- Null as a text, as a number in a box and as an argument, and a character as a number. -/
theorem Machine.instructions_keep_types_null :
    Answers .concat [.null, .char 'a'] .string ∧ Answers (.unary .neg) [.char 'a'] .int ∧
      (∃ x, Performs (.unbox .int) [.null] (x.map .value) ∧ Converted .int x) ∧
      ((widen .null .string).isSome ↔
        (Conversion.implicit? (.ofType Value.null.staticType) .string).isSome) ∧
      Answers (.routine .length) [.null] .int := by
  obtain ⟨hcombine, hunary, hconvert, hwiden, hroutine⟩ := instructions_keep_types
  have htext : Value.null.Conforms .string := .inl rfl
  have hchar : (Value.char 'a').Conforms .char := ⟨'a', rfl⟩
  refine ⟨?_, ?_, ?_, ?_, ?_⟩
  · exact hcombine .add (.of .string) (.of .char) .concat .string rfl .null (.char 'a') htext hchar
  · exact hunary .neg .char .int rfl (.char 'a') hchar
  · exact hconvert (.ofType (.of .object)) .int .unbox (.inr rfl) .null Value.noConfusion
  · exact (hwiden .null .string Value.noConfusion).1
  · exact hroutine .length [.string] .int (@Catalogue.Lists.property _ _ "Length" _ rfl) [.null]
      (.cons htext .nil)

end Scriptlet
