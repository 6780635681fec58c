import Scriptlet.Proofs.Typing.Acceptance.Call

namespace Scriptlet.Typing

/-!
# Accepted expressions
-/

section

variable {ctx : Context}

theorem elaborating_checkInteger (value : Nat) (long : Bool) (s span span' : Text.Span) :
    Elaborating ctx (checkInteger (-value) long span)
      (.unary (.strict .neg) (.literal (.int value long) s) span') := by
  intro v t u h
  obtain ⟨rfl, k, o, hk, rfl⟩ := elaborates_of_checkInteger h
  exact ⟨rfl, .negative hk⟩

mutual

/-- An expression about which nothing is reported has been elaborated. -/
theorem elaborating_checkExpr : ∀ e : Tree.Expr, Elaborating ctx (checkExpr e) e
  | .literal l span => by
      rw [checkExpr]
      exact elaborating_checkLiteral l span span
  | .name name span => by
      rw [checkExpr]
      exact elaborating_checkName name span span
  | .type t span => by
      rw [checkExpr]
      exact fun v t u h => absurd h (yields_wrong _ _ _)
  | .member receiver name span => by
      rw [checkExpr]
      intro v t u h
      rw [yields_bind] at h
      obtain ⟨a, w, ha, h⟩ := h
      obtain ⟨rfl, ha⟩ := yields_owner? ha
      cases a with
      | some owner =>
          obtain ⟨rfl, k, d, hk, rfl⟩ := yields_checkStaticMember h
          exact ⟨rfl, .constant ha.symm hk⟩
      | none =>
          obtain ⟨rfl, r, s, routine, d, hr, hs, hd, rfl⟩ :=
            yields_checkValueMember (elaborating_checkExpr receiver) h
          exact ⟨rfl, .property ha.symm hr hs hd⟩
  | .call (.name name s) args span => by
      rw [checkExpr]
      exact elaborating_checkSimpleCall (elaborating_parts args) name s s span
  | .call (.member receiver name s) args span => by
      rw [checkExpr]
      intro v t u h
      rw [yields_bind] at h
      obtain ⟨a, w, ha, h⟩ := h
      obtain ⟨rfl, ha⟩ := yields_owner? ha
      cases a with
      | some owner => exact elaborates_of_checkStaticCall (elaborating_parts args) ha.symm h
      | none =>
          exact elaborates_of_checkValueCall (elaborating_checkExpr receiver)
            (elaborating_parts args) ha.symm h
  | .call (.literal _ _) _ _ | .call (.type _ _) _ _ | .call (.call _ _ _) _ _
  | .call (.index _ _ _) _ _ | .call (.new _ _ _) _ _ | .call (.unary _ _ _) _ _
  | .call (.binary _ _ _ _) _ _ | .call (.assign _ _ _ _) _ _ | .call (.step _ _ _ _) _ _
  | .call (.conditional _ _ _ _) _ _ | .call (.cast _ _ _) _ _ => by
      rw [checkExpr]
      · exact fun v t u h => absurd h (yields_wrong _ _ _)
      all_goals simp
  | .index receiver index span => by
      rw [checkExpr]
      exact elaborating_checkIndex (elaborating_checkExpr receiver) (elaborating_checkExpr index)
        span
  | .new type args span => by
      rw [checkExpr]
      exact elaborating_checkNew (elaborating_parts args) type span span
  | .unary .plus operand span => by
      rw [checkExpr]
      exact elaborating_checkPlus (elaborating_checkExpr operand) span span
  | .unary (.strict op) operand span => by
      by_cases hint : ∃ value long s, op = .neg ∧ operand = .literal (.int value long) s
      · obtain ⟨value, long, s, rfl, rfl⟩ := hint
        rw [checkExpr]
        exact elaborating_checkInteger value long s span span
      · have hop : ∀ value long s, op = .neg → operand = .literal (.int value long) s → False :=
          fun value long s hneg hlit => hint ⟨value, long, s, hneg, hlit⟩
        rw [checkExpr]
        · exact elaborating_checkUnary hop (elaborating_checkExpr operand) span span
        · exact fun value long s hlit hneg => hop value long s hneg hlit
  | .binary .andAlso left right span => by
      rw [checkExpr]
      intro v t u h
      obtain ⟨rfl, l, r, hl, hr, hlt, hrt, rfl⟩ :=
        yields_checkLogical (elaborating_checkExpr left) (elaborating_checkExpr right) h
      exact ⟨rfl, .andAlso hl hr hlt hrt⟩
  | .binary .orElse left right span => by
      rw [checkExpr]
      intro v t u h
      obtain ⟨rfl, l, r, hl, hr, hlt, hrt, rfl⟩ :=
        yields_checkLogical (elaborating_checkExpr left) (elaborating_checkExpr right) h
      exact ⟨rfl, .orElse hl hr hlt hrt⟩
  | .binary (.strict op) left right span => by
      rw [checkExpr]
      exact elaborating_checkBinary (elaborating_checkExpr left) (elaborating_checkExpr right) op
        span span
  | .assign op target value span => by
      rw [checkExpr]
      exact elaborating_checkAssign (elaborating_checkExpr value) op target span span
  | .step increment isPrefix target span => by
      rw [checkExpr]
      exact elaborating_checkStep increment isPrefix target span
  | .conditional condition yes no span => by
      rw [checkExpr]
      exact elaborating_checkConditional (elaborating_checkExpr condition)
        (elaborating_checkExpr yes) (elaborating_checkExpr no) span span
  | .cast type operand span => by
      rw [checkExpr]
      exact elaborating_checkCast (elaborating_checkExpr operand) type span

theorem elaborating_parts : ∀ es : List Tree.Expr, PartsElaborating ctx (parts es) es
  | [] => by
      rw [parts]
      exact .nil
  | e :: es => by
      rw [parts]
      exact .cons (elaborating_checkExpr e) (elaborating_parts es)

end

end

end Scriptlet.Typing
