import Mathlib.Order.Bounds.Basic
import Scriptlet.Engine
import Scriptlet.Proofs.Text.Blank

namespace Scriptlet

/-!
# Argument errors

Arguments are read, all of them, and only then their values are widened to the parameters of a
method. The first failure to read is reported, or else the first failure to widen.
-/

open Machine (widen widenAll BindError)
open Text (AllBlank Stripped)

namespace Arguments

/-- The texts with their types. -/
def entries (a : Arguments) : List (String × BasicType) :=
  (a.values.getD []).zip (a.types.getD [])

/-- The text at a place is no value of its type. -/
def Unreadable (a : Arguments) (i : ℕ) (f : CoercionFailure) : Prop :=
  ∃ text t e, a.entries[i]? = some (text, t) ∧ readValue text t = .error e ∧
    f = .ofRead text t e

/-- The text at a place is a value of its type, but this does not widen to the parameter. -/
def Misfit (a : Arguments) (params : List DataType) (i : ℕ) (f : CoercionFailure) : Prop :=
  ∃ text t v d, a.entries[i]? = some (text, t) ∧ readValue text t = .ok v ∧
    params[i]? = some d ∧ widen v d = .none ∧ f = .mismatch d v.dataType.keyword

/-- A text is no value, or a value does not fit. -/
def Wrong (a : Arguments) (params : List DataType) : Prop :=
  (∃ i f, a.Unreadable i f) ∨ ∃ i f, a.Misfit params i f

/-- The name of a place: what was given there without the blanks around it, or none if that is
blank. -/
def Label (a : Arguments) (i : ℕ) (n : Option String) : Prop :=
  ∃ names name, a.names = some names ∧ names[i]? = some name ∧
    (AllBlank name.toList ∧ n = .none ∨
      ¬AllBlank name.toList ∧ ∃ s, n = some s ∧ Stripped name.toList s.toList)

end Arguments

/-- The first place of a failure. -/
structure FirstFailure (fails : ℕ → CoercionFailure → Prop) (i : ℕ) (f : CoercionFailure) :
    Prop where
  least : IsLeast {j | ∃ g, fails j g} i
  here : fails i f

/-- The failure that is reported: the first text that cannot be read, or else the first value that
does not widen. -/
inductive Arguments.Reported (a : Arguments) (params : List DataType) (i : ℕ)
    (f : CoercionFailure) : Prop
  | unreadable : FirstFailure a.Unreadable i f → Reported a params i f
  | misfit : (∀ j g, ¬a.Unreadable j g) → FirstFailure (a.Misfit params) i f → Reported a params i f

/-- The values with which a method is called: those of the texts, widened to the parameters. -/
structure Arguments.Widened (a : Arguments) (params : List DataType) (bound : List Value) : Prop where
  length : bound.length = params.length
  value (i : ℕ) (text : String) (t : BasicType) (d : DataType) :
    a.entries[i]? = some (text, t) → params[i]? = some d →
      ∃ v w, readValue text t = .ok v ∧ widen v d = some w ∧ bound[i]? = some w

/-! ### Lists of attempts -/

section

variable {α β ε : Type} {f : α → Except ε β} {xs : List α} {ys : List β} {e : ε}

theorem map_eq_of_mapM_eq_ok (h : xs.mapM f = .ok ys) : xs.map f = ys.map .ok := by
  induction xs generalizing ys with
  | nil =>
      obtain rfl := Except.ok.inj h
      rfl
  | cons x xs ih =>
      rw [List.mapM_cons] at h
      cases hx : f x with
      | error e =>
          rw [hx] at h
          cases h
      | ok y =>
          cases hxs : xs.mapM f with
          | error e =>
              rw [hx, hxs] at h
              cases h
          | ok ys' =>
              rw [hx, hxs] at h
              obtain rfl := Except.ok.inj h
              rw [List.map_cons, hx, ih hxs]
              rfl

/-- The first failure of a list is that of the whole. -/
theorem exists_map_eq_of_mapM_eq_error (h : xs.mapM f = .error e) :
    ∃ (ys : List β) (rest : List (Except ε β)), xs.map f = ys.map .ok ++ .error e :: rest := by
  induction xs with
  | nil => cases h
  | cons x xs ih =>
      rw [List.mapM_cons] at h
      cases hx : f x with
      | error e' =>
          rw [hx] at h
          obtain rfl := Except.error.inj h
          exact ⟨[], xs.map f, by rw [List.map_cons, hx]; rfl⟩
      | ok y =>
          cases hxs : xs.mapM f with
          | ok ys =>
              rw [hx, hxs] at h
              cases h
          | error e' =>
              rw [hx, hxs] at h
              obtain rfl := Except.error.inj h
              obtain ⟨ys, rest, hrest⟩ := ih hxs
              exact ⟨y :: ys, rest, by rw [List.map_cons, hx, hrest]; rfl⟩

section

variable {f : α × ℕ → Except ε β}

theorem getElem?_map_zipIdx (f : α × ℕ → β) (xs : List α) (i : ℕ) :
    (xs.zipIdx.map f)[i]? = xs[i]?.map fun x => f (x, i) := by
  rw [List.getElem?_map, List.getElem?_zipIdx, Option.map_map]
  simp only [Nat.zero_add, Function.comp_def]

/-- Every attempt of a list that succeeds has succeeded. -/
theorem attempts_succeed (h : xs.zipIdx.mapM f = .ok ys) :
    ys.length = xs.length ∧
      ∀ (i : ℕ) x, xs[i]? = some x → ∃ y, ys[i]? = some y ∧ f (x, i) = .ok y := by
  have hmap := map_eq_of_mapM_eq_ok h
  constructor
  · simpa using (congrArg List.length hmap).symm
  · intro i x hx
    have hi := getElem?_map_zipIdx f xs i
    rw [hmap, hx, List.getElem?_map] at hi
    obtain ⟨y, hy, heq⟩ := Option.map_eq_some_iff.1 hi
    exact ⟨y, hy, heq.symm⟩

/-- The first attempt that fails is the failure of the list. -/
theorem attempts_fail (h : xs.zipIdx.mapM f = .error e) :
    ∃ i x, xs[i]? = some x ∧ f (x, i) = .error e ∧
      ∀ j < i, ∀ y, xs[j]? = some y → ∃ z, f (y, j) = .ok z := by
  obtain ⟨ys, rest, hmap⟩ := exists_map_eq_of_mapM_eq_error h
  have hfails : xs[ys.length]?.map (fun x => f (x, ys.length)) = some (.error e) := by
    rw [← getElem?_map_zipIdx, hmap, List.getElem?_append_right (by simp)]
    simp
  obtain ⟨x, hx, hfx⟩ := Option.map_eq_some_iff.1 hfails
  refine ⟨ys.length, x, hx, hfx, ?_⟩
  intro j hj y hy
  have hbefore := getElem?_map_zipIdx f xs j
  rw [hmap, hy, List.getElem?_append_left (by simpa using hj), List.getElem?_map] at hbefore
  obtain ⟨z, -, hz⟩ := Option.map_eq_some_iff.1 hbefore
  exact ⟨z, hz.symm⟩

end

end

/-! ### Reading -/

namespace Arguments

/-- An attempt to read the text at a place. -/
def readAt (names : List String) (x : (String × BasicType) × ℕ) : Except CoercionError Value :=
  (readValue x.1.1 x.1.2).mapError fun e => ⟨x.2, nameAt? names x.2, .ofRead x.1.1 x.1.2 e⟩

theorem coerceFrom_eq (names : List String) (position : ℕ) (texts : List String)
    (types : List BasicType) : coerceFrom names position texts types =
      ((texts.zip types).zipIdx position).mapM (readAt names) := by
  induction texts generalizing position types with
  | nil => rfl
  | cons text texts ih =>
      cases types with
      | nil => rfl
      | cons t types =>
          rw [coerceFrom, List.zip_cons_cons, List.zipIdx_cons, List.mapM_cons, readAt, ih]
          cases readValue text t with
          | error e => rfl
          | ok v => rfl

section

variable {a : Arguments} {vs : List Value} {e : CoercionError} {i : ℕ} {f g : CoercionFailure}

theorem coerced_eq (a : Arguments) :
    Engine.coerced a = a.entries.zipIdx.mapM (readAt (a.names.getD [])) := by
  unfold Engine.coerced entries
  cases a.values with
  | none => rfl
  | some texts =>
      cases a.types with
      | none =>
          rw [Option.getD_none, List.zip_nil_right]
          rfl
      | some types => exact coerceFrom_eq _ 0 texts types

theorem Unreadable.unique (hf : a.Unreadable i f) (hg : a.Unreadable i g) : f = g := by
  obtain ⟨text, t, e, hentry, hread, rfl⟩ := hf
  obtain ⟨text', t', e', hentry', hread', rfl⟩ := hg
  obtain ⟨rfl, rfl⟩ := Prod.mk.inj (Option.some.inj (hentry.symm.trans hentry'))
  obtain rfl := Except.error.inj (hread.symm.trans hread')
  rfl

/-- The values are those of the texts. -/
theorem read_of_coerced (h : Engine.coerced a = .ok vs) :
    vs.length = a.entries.length ∧ ∀ (i : ℕ) text t, a.entries[i]? = some (text, t) →
      ∃ v, vs[i]? = some v ∧ readValue text t = .ok v := by
  rw [coerced_eq] at h
  obtain ⟨hlength, hread⟩ := attempts_succeed h
  refine ⟨hlength, fun i text t hentry => ?_⟩
  obtain ⟨v, hv, hattempt⟩ := hread i _ hentry
  refine ⟨v, hv, ?_⟩
  rw [readAt] at hattempt
  cases hvalue : readValue text t with
  | ok w =>
      rw [hvalue] at hattempt
      obtain rfl := Except.ok.inj hattempt
      rfl
  | error e =>
      rw [hvalue] at hattempt
      cases hattempt

theorem not_unreadable_of_coerced (h : Engine.coerced a = .ok vs) (i : ℕ) (f : CoercionFailure) :
    ¬a.Unreadable i f := by
  rintro ⟨text, t, e, hentry, hread, -⟩
  obtain ⟨v, -, hv⟩ := (read_of_coerced h).2 i text t hentry
  rw [hread] at hv
  cases hv

/-- A failure to read is the first one. -/
theorem firstFailure_of_coerced (h : Engine.coerced a = .error e) :
    FirstFailure a.Unreadable e.position e.failure ∧
      e.name = nameAt? (a.names.getD []) e.position := by
  rw [coerced_eq] at h
  obtain ⟨i, ⟨text, t⟩, hentry, hattempt, hbefore⟩ := attempts_fail h
  rw [readAt] at hattempt
  cases hread : readValue text t with
  | ok v =>
      rw [hread] at hattempt
      cases hattempt
  | error r =>
      rw [hread] at hattempt
      obtain rfl := Except.error.inj hattempt
      have hhere : a.Unreadable i (.ofRead text t r) := ⟨text, t, r, hentry, hread, rfl⟩
      refine ⟨⟨⟨⟨_, hhere⟩, ?_⟩, hhere⟩, rfl⟩
      rintro j ⟨g, text', t', r', hentry', hread', -⟩
      by_contra hj
      obtain ⟨z, hz⟩ := hbefore j (Nat.lt_of_not_le hj) _ hentry'
      rw [readAt, hread'] at hz
      cases hz

end

end Arguments

/-! ### Widening -/

namespace Machine

/-- An attempt to widen the value at a place. -/
def widenAt (x : (Value × DataType) × ℕ) : Except BindError Value :=
  match widen x.1.1 x.1.2 with
  | some w => .ok w
  | none => .error (.mismatch x.2 x.1.2 x.1.1.dataType.keyword)

theorem widenAll_eq (position : ℕ) (args : List Value) (params : List DataType) :
    widenAll position args params = ((args.zip params).zipIdx position).mapM widenAt := by
  induction args generalizing position params with
  | nil => rfl
  | cons v args ih =>
      cases params with
      | nil => rfl
      | cons d params =>
          rw [widenAll, List.zip_cons_cons, List.zipIdx_cons, List.mapM_cons, widenAt, ih]
          cases widen v d with
          | none => rfl
          | some w => rfl

end Machine

namespace Arguments

section

variable {a : Arguments} {vs bound : List Value} {params : List DataType} {e : BindError} {i : ℕ}
  {f g : CoercionFailure}

theorem Misfit.unique (hf : a.Misfit params i f) (hg : a.Misfit params i g) : f = g := by
  obtain ⟨text, t, v, d, hentry, hread, hd, -, rfl⟩ := hf
  obtain ⟨text', t', v', d', hentry', hread', hd', -, rfl⟩ := hg
  obtain ⟨rfl, rfl⟩ := Prod.mk.inj (Option.some.inj (hentry.symm.trans hentry'))
  obtain rfl := Except.ok.inj (hread.symm.trans hread')
  obtain rfl := Option.some.inj (hd.symm.trans hd')
  rfl

/-- Among arguments that can be read, the misfits are the values that do not widen. -/
theorem misfit_iff (h : Engine.coerced a = .ok vs) : a.Misfit params i f ↔
    ∃ v d, (vs.zip params)[i]? = some (v, d) ∧ widen v d = .none ∧
      f = .mismatch d v.dataType.keyword := by
  obtain ⟨hlength, hread⟩ := read_of_coerced h
  constructor
  · rintro ⟨text, t, v, d, hentry, hv, hd, hwiden, rfl⟩
    obtain ⟨v', hv', hread'⟩ := hread i text t hentry
    obtain rfl := Except.ok.inj (hv.symm.trans hread')
    exact ⟨v, d, List.getElem?_zip_eq_some.2 ⟨hv', hd⟩, hwiden, rfl⟩
  · rintro ⟨v, d, hzip, hwiden, rfl⟩
    obtain ⟨hv, hd⟩ := List.getElem?_zip_eq_some.1 hzip
    have hi : i < a.entries.length := by
      rw [← hlength]
      exact (List.getElem?_eq_some_iff.1 hv).1
    obtain ⟨v', hv', hread'⟩ := hread i _ _ (List.getElem?_eq_getElem hi)
    obtain rfl := Option.some.inj (hv.symm.trans hv')
    exact ⟨_, _, v, d, List.getElem?_eq_getElem hi, hread', hd, hwiden, rfl⟩

/-- A failure to widen is the first one. -/
theorem firstFailure_of_widenAll (h : Engine.coerced a = .ok vs)
    (hwiden : widenAll 0 vs params = .error e) :
    ∃ i d found, e = .mismatch i d found ∧
      FirstFailure (a.Misfit params) i (.mismatch d found) := by
  rw [Machine.widenAll_eq] at hwiden
  obtain ⟨i, ⟨v, d⟩, hzip, hattempt, hbefore⟩ := attempts_fail hwiden
  rw [Machine.widenAt] at hattempt
  cases hw : widen v d with
  | some w =>
      rw [hw] at hattempt
      cases hattempt
  | none =>
      rw [hw] at hattempt
      obtain rfl := Except.error.inj hattempt
      have hhere := (misfit_iff h).2 ⟨v, d, hzip, hw, rfl⟩
      refine ⟨i, d, _, rfl, ⟨⟨_, hhere⟩, ?_⟩, hhere⟩
      rintro j ⟨g, hg⟩
      obtain ⟨v', d', hzip', hw', -⟩ := (misfit_iff h).1 hg
      by_contra hj
      obtain ⟨z, hz⟩ := hbefore j (Nat.lt_of_not_le hj) _ hzip'
      rw [Machine.widenAt, hw'] at hz
      cases hz

/-- The bound values are the widened ones. -/
theorem widened_of_widenAll (h : Engine.coerced a = .ok vs)
    (hwiden : widenAll 0 vs params = .ok bound) (hcount : vs.length = params.length) :
    (∀ i f, ¬a.Misfit params i f) ∧ a.Widened params bound := by
  rw [Machine.widenAll_eq] at hwiden
  obtain ⟨hlength, hall⟩ := attempts_succeed hwiden
  have hsome (v : Value) (d : DataType) (i : ℕ) (hzip : (vs.zip params)[i]? = some (v, d)) :
      ∃ w, widen v d = some w ∧ bound[i]? = some w := by
    obtain ⟨w, hw, hattempt⟩ := hall i _ hzip
    rw [Machine.widenAt] at hattempt
    cases hwiden : widen v d with
    | none =>
        rw [hwiden] at hattempt
        cases hattempt
    | some u =>
        rw [hwiden] at hattempt
        obtain rfl := Except.ok.inj hattempt
        exact ⟨u, rfl, hw⟩
  refine ⟨?_, ?_, ?_⟩
  · intro i f hf
    obtain ⟨v, d, hzip, hnone, -⟩ := (misfit_iff h).1 hf
    obtain ⟨w, hw, -⟩ := hsome v d i hzip
    rw [hnone] at hw
    cases hw
  · rw [hlength, List.length_zip, hcount, Nat.min_self]
  · intro i text t d hentry hd
    obtain ⟨v, hv, hread⟩ := (read_of_coerced h).2 i text t hentry
    obtain ⟨w, hw, hbound⟩ := hsome v d i (List.getElem?_zip_eq_some.2 ⟨hv, hd⟩)
    exact ⟨v, w, hread, hw, hbound⟩

end

end Arguments

section

variable {fails : ℕ → CoercionFailure → Prop} {a : Arguments} {params : List DataType} {i j : ℕ}
  {f g : CoercionFailure}

theorem FirstFailure.unique (hfails : ∀ i f g, fails i f → fails i g → f = g)
    (hf : FirstFailure fails i f) (hg : FirstFailure fails j g) : i = j ∧ f = g := by
  obtain rfl := hf.least.unique hg.least
  exact ⟨rfl, hfails i f g hf.here hg.here⟩

theorem Arguments.Reported.unique (hf : a.Reported params i f) (hg : a.Reported params j g) :
    i = j ∧ f = g := by
  cases hf with
  | unreadable hf =>
      cases hg with
      | unreadable hg => exact hf.unique (fun _ _ _ h h' => h.unique h') hg
      | misfit hnone _ => exact absurd hf.here (hnone i f)
  | misfit hnone hf =>
      cases hg with
      | unreadable hg => exact absurd hg.here (hnone j g)
      | misfit _ hg => exact hf.unique (fun _ _ _ h h' => h.unique h') hg

theorem Arguments.Reported.wrong (h : a.Reported params i f) : a.Wrong params := by
  cases h with
  | unreadable h => exact .inl ⟨i, f, h.here⟩
  | misfit _ h => exact .inr ⟨i, f, h.here⟩

end

/-! ### Names -/

namespace Arguments

section

variable {a : Arguments} {body : String} {i : ℕ} {x : String × BasicType}

theorem exists_lists_of_validate (h : Engine.validate body a = .ok ()) :
    a = .none ∨ ∃ names texts types, a = .ofLists names texts types ∧
      names.length = texts.length ∧ texts.length = types.length := by
  obtain ⟨names, texts, types⟩ := a
  unfold Engine.validate at h
  split at h
  · cases h
  · unfold Engine.validateArguments at h
    split at h
    next hnames htexts htypes =>
      cases hnames
      cases htexts
      cases htypes
      exact .inl rfl
    next names' texts' types' hnames htexts htypes =>
      cases hnames
      cases htexts
      cases htypes
      split at h
      next hlengths => exact .inr ⟨_, _, _, rfl, hlengths⟩
      · cases h
    · cases h

theorem length_entries (h : Engine.validate body a = .ok ()) : a.entries.length = a.count := by
  obtain rfl | ⟨names, texts, types, rfl, -, htypes⟩ := exists_lists_of_validate h
  · rfl
  · exact (List.length_zip).trans (Nat.min_eq_left (Nat.le_of_eq htypes))

theorem label_nameAt? (h : Engine.validate body a = .ok ()) (hx : a.entries[i]? = some x) :
    a.Label i (nameAt? (a.names.getD []) i) := by
  have hi := (List.getElem?_eq_some_iff.1 hx).1
  rw [length_entries h] at hi
  obtain rfl | ⟨names, texts, types, rfl, hnames, -⟩ := exists_lists_of_validate h
  · cases hi
  · have hlt : i < names.length := by
      rw [hnames]
      exact hi
    have hname := List.getElem?_eq_getElem hlt
    refine ⟨names, names[i], rfl, hname, ?_⟩
    change AllBlank names[i].toList ∧ nameAt? names i = .none ∨ ¬AllBlank names[i].toList ∧
      ∃ s, nameAt? names i = some s ∧ Stripped names[i].toList s.toList
    rw [nameAt?, hname]
    by_cases hblank : AllBlank names[i].toList
    · exact .inl ⟨hblank, if_pos (List.all_eq_true.2 hblank)⟩
    · refine .inr ⟨hblank, Text.trimmed names[i], if_neg fun hall => ?_, ?_⟩
      · exact hblank (List.all_eq_true.1 hall)
      · rw [Text.trimmed, String.toList_ofList]
        exact Text.stripped_trim _

end

end Arguments

end Scriptlet
