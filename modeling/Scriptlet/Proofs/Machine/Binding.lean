import Scriptlet.Machine.Binding
import Scriptlet.Proofs.Machine.RoutineSafety

namespace Scriptlet.Machine

/-!
# Bound arguments

Arguments that have been bound belong to the types of the parameters.
-/

theorem conforms_dataType {v : Value} (h : v.isNull = false) : v.Conforms v.dataType := by
  cases v with
  | null => cases h
  | void => rfl
  | string s => exact .inr ⟨s, rfl⟩
  | exception k message => exact .inr ⟨k, message, rfl, .inr rfl⟩
  | _ => exact ⟨_, rfl⟩

theorem isArithmetic_of_widensTo {s t : DataType} (h : s.widensTo t = true)
    (ht : t.isNumeric = true) : s.isArithmetic = true ∧ t.isArithmetic = true := by
  constructor
  · cases s <;> cases t <;> simp_all [DataType.widensTo, DataType.isNumeric, DataType.isArithmetic,
      DataType.isIntegral]
  · simp [DataType.isArithmetic, ht]

theorem conforms_of_widen {v w : Value} {t : DataType} (h : widen v t = some w) :
    w.Conforms t := by
  unfold widen at h
  by_cases hnull : v.isNull = true
  · rw [if_pos hnull] at h
    by_cases href : t.isReference = true
    · rw [if_pos href] at h
      obtain rfl := Option.some.inj h
      exact Value.conforms_null href
    · rw [if_neg href] at h
      cases h
  rw [if_neg hnull] at h
  have hv : v.Conforms v.dataType := conforms_dataType (by simpa using hnull)
  split at h
  · cases h
  next hwide =>
    simp only [Bool.or_eq_true, decide_eq_true_eq, Bool.not_eq_true', not_or,
      Bool.not_eq_false] at hwide
    obtain ⟨hvoid, hwide⟩ := hwide
    by_cases hsame : v.dataType = t
    · rw [if_pos (by simp [hsame])] at h
      obtain rfl := Option.some.inj h
      rwa [hsame] at hv
    by_cases hnumeric : t.isNumeric = true
    · rw [if_neg (by simp [hsame, hnumeric])] at h
      obtain ⟨hs, ht⟩ := isArithmetic_of_widensTo hwide hnumeric
      have hsafe := safe_cast hv hs ht
      cases hcast : cast v t with
      | error e =>
          rw [hcast] at h
          cases h
      | ok u =>
          rw [hcast] at h hsafe
          obtain rfl := Option.some.inj h
          exact hsafe
    · rw [if_pos (by simp [hnumeric])] at h
      obtain rfl := Option.some.inj h
      exact conforms_of_widensTo hvoid hwide (by simpa using hnumeric) hv

theorem conformAll_of_widenAll {position : Nat} {args bound : List Value} {params : List DataType}
    (hlength : args.length = params.length) (h : widenAll position args params = .ok bound) :
    ConformAll bound params := by
  induction args generalizing position params bound with
  | nil =>
      obtain rfl := List.eq_nil_of_length_eq_zero hlength.symm
      obtain rfl := Except.ok.inj h
      exact .nil
  | cons v args ih =>
      cases params with
      | nil => cases hlength
      | cons t params =>
          rw [widenAll] at h
          split at h
          · cases h
          next w hw =>
            cases hrest : widenAll (position + 1) args params with
            | error e =>
                rw [hrest] at h
                cases h
            | ok rest =>
                rw [hrest] at h
                obtain rfl := Except.ok.inj h
                exact .cons (conforms_of_widen hw) (ih (Nat.succ.inj hlength) hrest)

/-- What binding accepts are values of the parameter types. -/
theorem conformAll_of_bindArguments {f : Code.Method} {args bound : List Value}
    (h : bindArguments f args = .ok bound) : ConformAll bound f.params := by
  unfold bindArguments at h
  split at h
  next hlength => exact conformAll_of_widenAll hlength h
  · cases h

end Scriptlet.Machine
