import Scriptlet.Code.Module
import Scriptlet.Typing.Conversion
import Scriptlet.Value

namespace Scriptlet

/-!
# Conformance

Which values belong to a type. Values of the basic types other than `string` and `object` carry
exactly their type; the other types contain null.
-/

namespace Value

/-- A value of a data type. Only methods without a result have the void value. -/
def Conforms (v : Value) : DataType → Prop
  | .void => v = .void
  | .bool => ∃ b, v = .bool b
  | .byte => ∃ n, v = .byte n
  | .short => ∃ n, v = .short n
  | .int => ∃ n, v = .int n
  | .long => ∃ n, v = .long n
  | .float => ∃ x, v = .float x
  | .double => ∃ x, v = .double x
  | .char => ∃ c, v = .char c
  | .string => v = .null ∨ ∃ s, v = .string s
  | .object => v ≠ .void
  | .exception c => v = .null ∨ ∃ k message, v = .exception k message ∧ (c = .exception ∨ k = c)

/-- A value of a static type. There is none of an unknown type. -/
def ConformsTo (v : Value) : StaticType → Prop
  | .of t => v.Conforms t
  | .null => v = .null
  | .unknown => False

theorem conforms_null {t : DataType} (h : t.isReference = true) : Value.null.Conforms t := by
  cases t with
  | string => exact .inl rfl
  | object => exact Value.noConfusion
  | exception c => exact .inl rfl
  | _ => simp [DataType.isReference] at h

/-- Only the void type has the void value. -/
theorem Conforms.ne_void {v : Value} {t : DataType} (h : v.Conforms t) (ht : t ≠ .void) :
    v ≠ .void := by
  rintro rfl
  cases t <;> simp_all [Conforms]

theorem ConformsTo.ne_void {v : Value} {s : StaticType} (h : v.ConformsTo s)
    (hs : s ≠ .of .void) : v ≠ .void := by
  cases s with
  | of t => exact Conforms.ne_void h fun ht => hs (ht ▸ rfl)
  | null =>
      rintro rfl
      cases h
  | unknown => exact h.elim

end Value

/-- The default value of a type belongs to it. -/
theorem conforms_defaultOf {t : DataType} (ht : t ≠ .void) :
    (Code.Literal.defaultOf t).toValue.Conforms t := by
  cases t with
  | void => exact absurd rfl ht
  | string | exception _ => exact .inl rfl
  | object => exact Value.noConfusion
  | _ => exact ⟨_, rfl⟩

/-- A conversion that leads from values of a static type to values of a data type. -/
inductive Conversion.Leads : Conversion → StaticType → DataType → Prop where
  | identity (t : DataType) : Leads .identity (.of t) t
  | null {t : DataType} : t.isReference = true → Leads .reference .null t
  | widen {s t : DataType} : s ≠ .void → s.widensTo t = true → t.isNumeric = false →
      Leads .reference (.of s) t
  | numeric {s t : DataType} : s.isArithmetic = true → t.isArithmetic = true →
      Leads .numeric (.of s) t
  | unbox {t : DataType} : t ≠ .void → Leads .unbox (.of .object) t

namespace Conversion

/-- An implicit conversion leads from the type of the operand to the target. -/
theorem leads_of_implicit? {o : Operand} {t : DataType} {c : Conversion} (ho : o.type ≠ .unknown)
    (h : implicit? o t = some c) : c.Leads o.type t := by
  obtain ⟨s, n⟩ := o
  cases s with
  | unknown => exact absurd rfl ho
  | null =>
      by_cases ht : t.isReference = true
      · simp only [implicit?, ht, if_true, Option.some.injEq] at h
        subst h
        exact .null ht
      · simp [implicit?, ht] at h
  | of s =>
      by_cases hst : s = t
      · subst hst
        simp only [implicit?_self, Option.some.injEq] at h
        subst h
        exact .identity s
      by_cases hw : s.widensTo t = true
      · have hs : s ≠ .void := by
          rintro rfl
          cases t <;> simp [DataType.widensTo] at hw hst
        by_cases hn : t.isNumeric = true
        · simp only [implicit?, hst, hw, hn, if_true, if_false, Option.some.injEq] at h
          subst h
          refine .numeric ?_ ?_
          · cases s <;> cases t <;> simp_all [DataType.widensTo, DataType.isNumeric,
              DataType.isArithmetic, DataType.isIntegral]
          · simp [DataType.isArithmetic, hn]
        · simp only [implicit?, hst, hw, if_true, if_false, Option.some.injEq] at h
          rw [if_neg hn] at h
          subst h
          exact .widen hs hw (by simpa using hn)
      · simp only [implicit?] at h
        rw [if_neg hst, if_neg hw] at h
        split at h
        · next k =>
            simp only [Option.ite_none_right_eq_some, Option.some.injEq] at h
            obtain ⟨hfit, rfl⟩ := h
            refine .numeric rfl ?_
            cases t <;> simp_all [narrowsTo, DataType.isArithmetic, DataType.isNumeric,
              DataType.isIntegral]
        · simp at h

/-- A cast leads from the type of the operand to the target. -/
theorem leads_of_explicit? {o : Operand} {t : DataType} {c : Conversion} (ho : o.type ≠ .unknown)
    (h : explicit? o t = some c) : c.Leads o.type t := by
  cases hi : implicit? o t with
  | some c' =>
      rw [explicit?_of_implicit? hi] at h
      cases h
      exact leads_of_implicit? ho hi
  | none =>
      simp only [explicit?, hi] at h
      split at h
      · next heq => cases heq
      · next s heq =>
          split at h
          · next harith =>
              cases h
              rw [heq]
              rw [Bool.and_eq_true] at harith
              exact .numeric harith.1 harith.2
          · simp only [Option.ite_none_right_eq_some, Option.some.injEq] at h
            obtain ⟨⟨rfl, ht⟩, rfl⟩ := h
            rw [heq]
            exact .unbox ht
      · simp at h

end Conversion

end Scriptlet
