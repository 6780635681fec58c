import Scriptlet.Machine.Binding
import Scriptlet.Machine.Library
import Scriptlet.Proofs.Core.Typing
import Scriptlet.Proofs.Meaning.Eval

namespace Scriptlet.Machine

/-!
# Safety of operations

Operators, conversions and library routines on values of the right types: the result is of the
expected type, and a failure is never a defect of the program.
-/

open Code (Routine)

def Fault.isDefective : Fault → Bool
  | .defective _ => true
  | _ => false

/-- A result of a kind, or a failure that is no defect. -/
def Safe {α : Type} (P : α → Prop) : Except Fault α → Prop
  | .ok a => P a
  | .error f => f.isDefective = false

section

variable {α β : Type} {P : α → Prop} {Q : β → Prop}

@[simp] theorem safe_ok (a : α) : Safe P (.ok a) ↔ P a := Iff.rfl

@[simp] theorem safe_pure (a : α) : Safe P (pure a) ↔ P a := Iff.rfl

@[simp] theorem safe_failed (e : RuntimeError) : Safe P (.error (.failed e)) := rfl

@[simp] theorem safe_thrown (c : ExceptionClass) (message : String) :
    Safe P (.error (.thrown c message)) := rfl

theorem Safe.bind {x : Except Fault α} {f : α → Except Fault β} (hx : Safe P x)
    (hf : ∀ a, P a → Safe Q (f a)) : Safe Q (x >>= f) := by
  cases x with
  | ok a => exact hf a hx
  | error e => exact hx

theorem Safe.map {x : Except Fault α} {f : α → β} (hx : Safe P x) (hf : ∀ a, P a → Q (f a)) :
    Safe Q (x.map f) := by
  cases x with
  | ok a => exact hf a hx
  | error e => exact hx

end

def Promoted.type : Promoted → DataType
  | int _ => .int
  | long _ => .long
  | float _ => .float
  | double _ => .double

def Pair.type : Pair → DataType
  | ints _ _ => .int
  | longs _ _ => .long
  | floats _ _ => .float
  | doubles _ _ => .double

/-- A value of an arithmetic type has a promotion. -/
theorem Promoted.of?_of_conforms {v : Value} {s t : DataType} (hv : v.Conforms s)
    (hs : s.promoted? = some t) : ∃ q, Promoted.of? v = some q ∧ q.type = t := by
  cases s <;> simp only [DataType.promoted?, reduceCtorEq, Option.some.injEq] at hs
  all_goals
    obtain ⟨x, rfl⟩ := hv
    subst hs
    exact ⟨_, rfl, rfl⟩

theorem Pair.type_of (a b : Promoted) :
    a.type.commonType? b.type = some (Pair.of a b).type := by
  cases a <;> cases b <;> rfl

theorem commonType?_promoted {s t s' t' : DataType} (hs : s.promoted? = some s')
    (ht : t.promoted? = some t') : s.commonType? t = s'.commonType? t' := by
  have hss : s'.promoted? = some s' := by
    cases s <;> simp [DataType.promoted?] at hs <;> subst hs <;> rfl
  have htt : t'.promoted? = some t' := by
    cases t <;> simp [DataType.promoted?] at ht <;> subst ht <;> rfl
  simp only [DataType.commonType?, hs, ht, hss, htt]

theorem exists_promoted_of_commonType? {s t u : DataType} (h : s.commonType? t = some u) :
    ∃ s' t', s.promoted? = some s' ∧ t.promoted? = some t' := by
  unfold DataType.commonType? at h
  split at h
  · next s' t' hs ht => exact ⟨s', t', hs, ht⟩
  · cases h

/-- Two values of arithmetic types have a common promotion. -/
theorem Pair.of?_of_conforms {v w : Value} {s t u : DataType} (hv : v.Conforms s)
    (hw : w.Conforms t) (h : s.commonType? t = some u) :
    ∃ p, Pair.of? v w = some p ∧ p.type = u := by
  obtain ⟨s', t', hs, ht⟩ := exists_promoted_of_commonType? h
  obtain ⟨a, ha, rfl⟩ := Promoted.of?_of_conforms hv hs
  obtain ⟨b, hb, rfl⟩ := Promoted.of?_of_conforms hw ht
  rw [commonType?_promoted hs ht, Pair.type_of] at h
  refine ⟨Pair.of a b, ?_, Option.some.inj h⟩
  simp [Pair.of?, ha, hb]

/-- An operator that only needs two numbers. -/
theorem safe_onPair {op : BinaryOp} {f : Pair → Except Fault Value} {v w : Value}
    {s t u r : DataType} (hv : v.Conforms s) (hw : w.Conforms t) (h : s.commonType? t = some u)
    (hf : ∀ p, p.type = u → Safe (·.Conforms r) (f p)) :
    Safe (·.Conforms r) (onPair op f v w) := by
  obtain ⟨p, hp, hu⟩ := Pair.of?_of_conforms hv hw h
  simp only [onPair, hp]
  exact hf p hu

theorem conforms_add (p : Pair) : (add p).Conforms p.type := by
  cases p <;> exact ⟨_, rfl⟩

theorem conforms_sub (p : Pair) : (sub p).Conforms p.type := by
  cases p <;> exact ⟨_, rfl⟩

theorem conforms_mul (p : Pair) : (mul p).Conforms p.type := by
  cases p <;> exact ⟨_, rfl⟩

theorem safe_divideInt (f : Int32 → Int32 → Int32) (a b : Int32) :
    Safe (·.Conforms .int) (divideInt f a b) := by
  unfold divideInt
  split
  · exact safe_failed _
  · split
    · exact safe_failed _
    · exact ⟨_, rfl⟩

theorem safe_divideLong (f : Int64 → Int64 → Int64) (a b : Int64) :
    Safe (·.Conforms .long) (divideLong f a b) := by
  unfold divideLong
  split
  · exact safe_failed _
  · split
    · exact safe_failed _
    · exact ⟨_, rfl⟩

theorem safe_div (p : Pair) : Safe (·.Conforms p.type) (div p) := by
  cases p with
  | ints a b => exact safe_divideInt _ a b
  | longs a b => exact safe_divideLong _ a b
  | floats a b => exact ⟨_, rfl⟩
  | doubles a b => exact ⟨_, rfl⟩

theorem safe_rem (p : Pair) : Safe (·.Conforms p.type) (rem p) := by
  cases p with
  | ints a b => exact safe_divideInt _ a b
  | longs a b => exact safe_divideLong _ a b
  | floats a b => exact ⟨_, rfl⟩
  | doubles a b => exact ⟨_, rfl⟩

/-- A whole type is promoted to one of the two integer types. -/
theorem type_of_isWhole {s t : DataType} (h : s.isWhole = true) (hs : s.promoted? = some t) :
    t = .int ∨ t = .long := by
  cases s <;> simp_all [DataType.isWhole, DataType.isIntegral, DataType.promoted?]

theorem commonType?_of_isWhole {s t u : DataType} (hs : s.isWhole = true) (ht : t.isWhole = true)
    (h : s.commonType? t = some u) : u = .int ∨ u = .long := by
  cases s <;> simp [DataType.isWhole, DataType.isIntegral] at hs <;>
    cases t <;> simp [DataType.isWhole, DataType.isIntegral] at ht <;>
    simp [DataType.commonType?, DataType.promoted?] at h <;> simp [← h]

theorem safe_bitwise (op : BinaryOp) (onBool : Bool → Bool → Bool)
    (onInt : Int32 → Int32 → Int32) (onLong : Int64 → Int64 → Int64) {v w : Value}
    {s t u : DataType} (hv : v.Conforms s) (hw : w.Conforms t)
    (h : (if s = .bool ∧ t = .bool then some DataType.bool
      else if s.isWhole ∧ t.isWhole then s.commonType? t else none) = some u) :
    Safe (·.Conforms u) (bitwise op onBool onInt onLong v w) := by
  by_cases hb : s = .bool ∧ t = .bool
  · obtain ⟨rfl, rfl⟩ := hb
    obtain ⟨a, rfl⟩ := hv
    obtain ⟨b, rfl⟩ := hw
    cases h
    exact ⟨_, rfl⟩
  rw [if_neg hb] at h
  by_cases hwhole : s.isWhole ∧ t.isWhole
  · rw [if_pos hwhole] at h
    obtain ⟨p, hp, hu⟩ := Pair.of?_of_conforms hv hw h
    have hkind := commonType?_of_isWhole hwhole.1 hwhole.2 h
    unfold bitwise
    split
    · simp [Pair.of?, Promoted.of?] at hp
    · rw [hp]
      cases p with
      | ints a b =>
          subst hu
          exact ⟨_, rfl⟩
      | longs a b =>
          subst hu
          exact ⟨_, rfl⟩
      | floats a b => simp [← hu, Pair.type] at hkind
      | doubles a b => simp [← hu, Pair.type] at hkind
  · simp [hwhole] at h

theorem safe_shift (op : BinaryOp) (onInt : Int32 → Int32 → Int32)
    (onLong : Int64 → Int64 → Int64) {v w : Value} {s t u : DataType} (hv : v.Conforms s)
    (hw : w.Conforms t) (hs : s.isWhole = true) (ht : t.promoted? = some .int)
    (h : s.promoted? = some u) : Safe (·.Conforms u) (shift op onInt onLong v w) := by
  obtain ⟨a, ha, hau⟩ := Promoted.of?_of_conforms hv h
  obtain ⟨b, hb, hbt⟩ := Promoted.of?_of_conforms hw ht
  have hkind := type_of_isWhole hs h
  cases b <;> simp only [Promoted.type, reduceCtorEq] at hbt
  next b =>
    cases a with
    | int a =>
        subst hau
        simp only [shift, ha, hb]
        exact ⟨_, rfl⟩
    | long a =>
        subst hau
        simp only [shift, ha, hb]
        exact ⟨_, rfl⟩
    | float a => simp [← hau, Promoted.type] at hkind
    | double a => simp [← hau, Promoted.type] at hkind

/-- An operator on data of types that it takes. -/
theorem safe_binary {op : BinaryOp} {v w : Value} {s t u : DataType} (hv : v.Conforms s)
    (hw : w.Conforms t) (h : Combiner.resultType? op s t = some u) :
    Safe (·.Conforms u) (binary op v w) := by
  have hpair : ∀ {f : Pair → Except Fault Value}, s.commonType? t = some u →
      (∀ p, Safe (·.Conforms p.type) (f p)) → Safe (·.Conforms u) (onPair op f v w) :=
    fun hu hf => safe_onPair hv hw hu fun p hp => hp ▸ hf p
  have hless : ∀ {f : Pair → Bool}, (s.commonType? t).map (fun _ => DataType.bool) = some u →
      Safe (·.Conforms u) (onPair op (fun p => .ok (.bool (f p))) v w) := by
    intro f hu
    obtain ⟨k, hk, rfl⟩ := Option.map_eq_some_iff.1 hu
    exact safe_onPair hv hw hk fun p _ => ⟨f p, rfl⟩
  cases op with
  | add => exact hpair h conforms_add
  | sub => exact hpair h conforms_sub
  | mul => exact hpair h conforms_mul
  | div => exact hpair h safe_div
  | rem => exact hpair h safe_rem
  | bitAnd | bitOr | bitXor => exact safe_bitwise _ _ _ _ hv hw h
  | shl | shr =>
      simp only [Combiner.resultType?, Option.ite_none_right_eq_some] at h
      exact safe_shift _ _ _ hv hw h.1.1 h.1.2.2 h.2
  | eq | ne => cases h
  | lt | le | gt | ge => exact hless h

theorem conforms_binary_equality {op : BinaryOp} (h : op = .eq ∨ op = .ne) (v w : Value) :
    Safe (·.Conforms .bool) (binary op v w) := by
  rcases h with rfl | rfl <;> exact ⟨_, rfl⟩

/-- What an operator does with operands of types that it takes. -/
theorem safe_apply_combiner {op : BinaryOp} {c : Combiner} {v w : Value} {s t : StaticType}
    {u : DataType} (hv : v.ConformsTo s) (hw : w.ConformsTo t)
    (h : Combiner.of? op s t = some (c, u)) : Safe (·.Conforms u) (c.apply v w) := by
  unfold Combiner.of? at h
  by_cases hconcat : op = .add ∧ (s = .of .string ∨ t = .of .string)
  · simp only [if_pos hconcat, Option.ite_none_right_eq_some, Option.some.injEq,
      Prod.mk.injEq] at h
    obtain ⟨-, rfl, rfl⟩ := h
    exact .inr ⟨_, rfl⟩
  rw [if_neg hconcat] at h
  by_cases heq : op = .eq ∨ op = .ne
  · simp only [if_pos heq, Option.ite_none_right_eq_some, Option.some.injEq, Prod.mk.injEq] at h
    obtain ⟨-, rfl, rfl⟩ := h
    exact conforms_binary_equality heq v w
  rw [if_neg heq] at h
  split at h
  · next s t =>
      obtain ⟨u', hu, hc⟩ := Option.map_eq_some_iff.1 h
      cases hc
      exact safe_binary hv hw hu
  · cases h

theorem safe_unary {op : UnaryOp} {v : Value} {s t : DataType} (hv : v.Conforms s)
    (h : Combiner.unaryType? op s = some t) : Safe (·.Conforms t) (unary op v) := by
  cases op with
  | neg =>
      obtain ⟨q, hq, rfl⟩ := Promoted.of?_of_conforms hv h
      simp only [unary, hq]
      cases q <;> exact ⟨_, rfl⟩
  | not =>
      simp only [Combiner.unaryType?, Option.ite_none_right_eq_some, Option.some.injEq] at h
      obtain ⟨rfl, rfl⟩ := h
      obtain ⟨b, rfl⟩ := hv
      exact ⟨_, rfl⟩
  | bitNot =>
      simp only [Combiner.unaryType?, Option.ite_none_right_eq_some] at h
      obtain ⟨q, hq, rfl⟩ := Promoted.of?_of_conforms hv h.2
      simp only [unary, hq]
      have hkind := type_of_isWhole h.1 h.2
      cases q <;> simp [Promoted.type] at hkind
      all_goals exact ⟨_, rfl⟩

/-- Casts between arithmetic types do not fail. -/
theorem exists_cast {v : Value} {s t : DataType} (hv : v.Conforms s) (hs : s.isArithmetic = true)
    (ht : t.isArithmetic = true) : ∃ w, cast v t = .ok w ∧ w.Conforms t := by
  rw [DataType.isArithmetic_iff_promoted?] at hs
  obtain ⟨u, hu⟩ := Option.isSome_iff_exists.1 hs
  obtain ⟨q, hq, -⟩ := Promoted.of?_of_conforms hv hu
  cases t <;> simp [DataType.isArithmetic, DataType.isNumeric, DataType.isIntegral] at ht
  all_goals
    simp only [cast, hq]
    exact ⟨_, rfl, _, rfl⟩

theorem safe_cast {v : Value} {s t : DataType} (hv : v.Conforms s) (hs : s.isArithmetic = true)
    (ht : t.isArithmetic = true) : Safe (·.Conforms t) (cast v t) := by
  obtain ⟨w, hw, hconforms⟩ := exists_cast hv hs ht
  rw [hw]
  exact hconforms

theorem conforms_of_isInstance {v : Value} {t : DataType} (hv : v ≠ .null) (hne : v ≠ .void)
    (h : isInstance v t = true) : v.Conforms t := by
  cases v with
  | null => exact absurd rfl hv
  | void => exact absurd rfl hne
  | exception c message =>
      simp only [isInstance, Bool.or_eq_true, beq_iff_eq] at h
      rcases h with rfl | rfl
      · exact .inr ⟨c, message, rfl, .inr rfl⟩
      · exact .inr ⟨c, message, rfl, .inl rfl⟩
  | string s =>
      obtain rfl : DataType.string = t := by simpa [isInstance, Value.dataType] using h
      exact .inr ⟨s, rfl⟩
  | bool x | byte x | short x | int x | long x | float x | double x | char x =>
      simp only [isInstance, Value.dataType, beq_iff_eq] at h
      subst h
      exact ⟨x, rfl⟩

theorem safe_unbox {v : Value} (hv : v ≠ .void) (t : DataType) :
    Safe (·.Conforms t) (unbox v t) := by
  unfold unbox
  split
  · next h =>
      subst h
      exact hv
  · split
    · next h =>
        split
        · next ht =>
            cases v <;> simp [Value.isNull] at h
            exact Value.conforms_null ht
        · exact safe_failed _
    · next h =>
        split
        · next hi => exact conforms_of_isInstance (fun hn => h (hn ▸ rfl)) hv hi
        · exact safe_failed _

/-- A value of a type that widens to another one without a change belongs to it. -/
theorem conforms_of_widensTo {v : Value} {s t : DataType} (hs : s ≠ .void)
    (hw : s.widensTo t = true) (ht : t.isNumeric = false) (hv : v.Conforms s) : v.Conforms t := by
  by_cases hst : s = t
  · exact hst ▸ hv
  cases t with
  | object => exact hv.ne_void hs
  | exception c =>
      cases s <;> simp [DataType.widensTo] at hw hst
      cases c with
      | exception =>
          rcases hv with rfl | ⟨k, message, rfl, -⟩
          · exact .inl rfl
          · exact .inr ⟨k, message, rfl, .inl rfl⟩
      | _ => exact absurd (by simpa using hw) hst
  | _ => cases s <;> simp_all [DataType.widensTo, DataType.isNumeric, DataType.isIntegral]

/-- A conversion that leads to a type makes values of it. -/
theorem safe_apply_conversion {c : Conversion} {v : Value} {s : StaticType} {t : DataType}
    (h : c.Leads s t) (hv : v.ConformsTo s) : Safe (·.Conforms t) (c.apply t v) := by
  cases h with
  | identity => exact hv
  | null ht =>
      cases hv
      exact Value.conforms_null ht
  | widen hs hw ht => exact conforms_of_widensTo hs hw ht hv
  | numeric hs ht => exact safe_cast hv hs ht
  | unbox ht => exact safe_unbox hv t

end Scriptlet.Machine
