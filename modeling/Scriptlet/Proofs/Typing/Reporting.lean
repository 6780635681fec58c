import Mathlib.Data.List.Forall2
import Scriptlet.Typing.SemanticError

namespace Scriptlet

/-!
# Nothing is reported

Where nothing is reported, nothing was reported on the way.
-/

namespace Reporting

variable {α β : Type}

theorem bind_eq_quiet {x : Reporting α} {f : α → Reporting β} {b : β}
    (h : (x >>= f) = ⟨b, []⟩) : ∃ a, x = ⟨a, []⟩ ∧ f a = ⟨b, []⟩ := by
  have hvalue := congrArg Reporting.value h
  have hreports := congrArg Reporting.reports h
  rw [value_bind] at hvalue
  rw [reports_bind, List.append_eq_nil_iff] at hreports
  refine ⟨x.value, ?_, ?_⟩
  · rw [← hreports.1]
  · rw [← hreports.2]
    exact congrArg (Reporting.mk · _) hvalue

theorem pure_eq_quiet {a b : α} (h : (pure a : Reporting α) = ⟨b, []⟩) : a = b :=
  congrArg Reporting.value h

@[simp] theorem report_ne (e : SemanticError) (span : Text.Span) (a : Unit) :
    report e span ≠ ⟨a, []⟩ := by
  intro h
  cases congrArg Reporting.reports h

theorem mapM_eq_quiet {f : α → Reporting β} {xs : List α} {ys : List β}
    (h : xs.mapM f = ⟨ys, []⟩) : List.Forall₂ (fun x y => f x = ⟨y, []⟩) xs ys := by
  induction xs generalizing ys with
  | nil =>
      obtain rfl := pure_eq_quiet h
      exact .nil
  | cons x xs ih =>
      rw [List.mapM_cons] at h
      obtain ⟨y, hy, h⟩ := bind_eq_quiet h
      obtain ⟨rest, hrest, h⟩ := bind_eq_quiet h
      obtain rfl := pure_eq_quiet h
      exact .cons hy (ih hrest)

end Reporting

end Scriptlet
