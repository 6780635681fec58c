import Scriptlet.Proofs.Typing.Reporting
import Scriptlet.Typing.Check

namespace Scriptlet.Typing

/-!
# Checks that report nothing

What comes out of a check that has nothing to report, and of its parts. The lemmas turn such a check
into a statement about its parts; a check that reports something yields nothing.
-/

/-- A check that reports nothing, with its result and the variables behind it. -/
def Yields {α : Type} (c : Check α) (ctx : Context) (v : Variables) (a : α) (v' : Variables) :
    Prop :=
  c ctx v = ⟨(a, v'), []⟩

section

variable {α β : Type} {ctx : Context} {v v' : Variables}

@[simp] theorem yields_pure (a b : α) :
    Yields (pure a : Check α) ctx v b v' ↔ b = a ∧ v' = v := by
  constructor
  · intro h
    cases h
    exact ⟨rfl, rfl⟩
  · rintro ⟨rfl, rfl⟩
    rfl

@[simp] theorem yields_bind (c : Check α) (f : α → Check β) (b : β) :
    Yields (c >>= f) ctx v b v' ↔ ∃ a u, Yields c ctx v a u ∧ Yields (f a) ctx u b v' := by
  have hbind : (c >>= f) ctx v = c ctx v >>= fun r => f r.1 ctx r.2 := rfl
  unfold Yields
  rw [hbind]
  constructor
  · intro h
    obtain ⟨⟨a, u⟩, hc, hf⟩ := Reporting.bind_eq_quiet h
    exact ⟨a, u, hc, hf⟩
  · rintro ⟨a, u, hc, hf⟩
    rw [hc]
    exact hf

@[simp] theorem yields_map (f : α → β) (c : Check α) (b : β) :
    Yields (f <$> c) ctx v b v' ↔ ∃ a, Yields c ctx v a v' ∧ b = f a := by
  rw [map_eq_pure_bind, yields_bind]
  constructor
  · rintro ⟨a, u, hc, hb⟩
    obtain ⟨rfl, rfl⟩ := (yields_pure _ _).1 hb
    exact ⟨a, hc, rfl⟩
  · rintro ⟨a, hc, rfl⟩
    exact ⟨a, v', hc, (yields_pure _ _).2 ⟨rfl, rfl⟩⟩

@[simp] theorem yields_read (a : Context) :
    Yields (read : Check Context) ctx v a v' ↔ a = ctx ∧ v' = v :=
  @yields_pure _ ctx v v' ctx a

@[simp] theorem yields_get (a : Variables) :
    Yields (get : Check Variables) ctx v a v' ↔ a = v ∧ v' = v :=
  @yields_pure _ ctx v v' v a

@[simp] theorem yields_modify (f : Variables → Variables) (a : Unit) :
    Yields (modify f : Check Unit) ctx v a v' ↔ v' = f v := by
  constructor
  · intro h
    cases h
    rfl
  · rintro rfl
    rfl

@[simp] theorem yields_modifyGet (f : Variables → α × Variables) (a : α) :
    Yields (modifyGet f : Check α) ctx v a v' ↔ a = (f v).1 ∧ v' = (f v).2 := by
  constructor
  · intro h
    have hvalue : f v = (a, v') := congrArg Reporting.value h
    rw [hvalue]
    exact ⟨rfl, rfl⟩
  · rintro ⟨rfl, rfl⟩
    rfl

@[simp] theorem yields_lift (x : Reporting α) (a : α) :
    Yields (liftM x : Check α) ctx v a v' ↔ x = ⟨a, []⟩ ∧ v' = v := by
  constructor
  · intro h
    have hvalue : (x.value, v) = (a, v') := congrArg Reporting.value h
    have hreports : x.reports ++ [] = [] := congrArg Reporting.reports h
    rw [List.append_nil] at hreports
    cases hvalue
    rw [← hreports]
    exact ⟨rfl, rfl⟩
  · rintro ⟨rfl, rfl⟩
    rfl

@[simp] theorem yields_wrong (e : SemanticError) (span : Text.Span) (t : Typed) :
    ¬Yields (wrong e span) ctx v t v' := by
  unfold wrong
  simp

@[simp] theorem yields_lookup? (name : String) (a : Option Local) :
    Yields (lookup? name) ctx v a v' ↔ a = v.scopes.lookup? name ∧ v' = v :=
  @yields_pure _ ctx v v' (v.scopes.lookup? name) a

@[simp] theorem yields_reserve (slot : UInt16) :
    Yields reserve ctx v slot v' ↔
      slot = v.draft.locals ∧ v' = ⟨v.scopes, (Code.Drafting.reserve.run v.draft).2⟩ :=
  yields_modifyGet _ slot

/-- A check in a scope of its own. -/
theorem yields_inScope (c : Check α) (a : α) :
    Yields (inScope c) ctx v a v' ↔
      ∃ u, Yields c ctx ⟨v.scopes.push, v.draft⟩ a u ∧ v' = ⟨u.scopes.pop, u.draft⟩ := by
  unfold inScope
  simp only [yields_bind, yields_modify, yields_pure]
  constructor
  · rintro ⟨_, _, rfl, b, u, h, _, _, rfl, rfl, rfl⟩
    exact ⟨u, h, rfl⟩
  · rintro ⟨u, h, rfl⟩
    exact ⟨(), _, rfl, a, u, h, (), _, rfl, rfl, rfl⟩

end

end Scriptlet.Typing
