import Scriptlet.Engine.Builtin
import Scriptlet.Session.Form

namespace Scriptlet

/-!
# Sessions with a form

A user and the worker act on a form in any order. The form always has one value for each parameter
and at most one of the two texts. While a run is pending it takes no input, and each run is
completed at most once, with what the worker left for just that run.
-/

namespace Form

/-- What happens next: the user does something, or the worker ends. A wait that is over is a poll
at that moment. -/
inductive Action where
  | setBody (text : String)
  | leaveBody
  | setValue (index : Nat) (text : String)
  | execute
  | poll
  | wait
  /-- The worker leaves the outcome of its job. -/
  | finish (outcome : Except EngineError Value)
  /-- The worker dies without leaving one. -/
  | die

def Action.isWork : Action → Bool
  | finish _ | die => true
  | _ => false

/-- The form after an action, and what the user is told. -/
def act (f : Form) : Action → Form × Bool
  | .setBody text => f.setBody text
  | .leaveBody => (f.leaveBody, true)
  | .setValue index text => f.setValue index text
  | .execute => f.execute
  | .poll => f.collect
  | .wait => f.collect
  | .finish outcome => (f.advance (.finish fun _ => outcome), true)
  | .die => (f.advance .lose, true)

/-- An action with the form that it found. -/
structure Moment where
  form : Form
  action : Action

namespace Moment

def told (x : Moment) : Bool :=
  (x.form.act x.action).2

def next (x : Moment) : Form :=
  (x.form.act x.action).1

/-- The button was pressed and a run has begun. -/
def begins (x : Moment) : Bool :=
  match x.action with
  | .execute => x.told
  | _ => false

/-- A poll or a wait has brought the result of a run. -/
def completes (x : Moment) : Bool :=
  match x.action with
  | .poll | .wait => x.told
  | _ => false

end Moment

/-- What the worker did in the meantime. -/
def work (moments : List Moment) : List Action :=
  (moments.map Moment.action).filter Action.isWork

/-- No run begins or is completed. -/
def Quiet (moments : List Moment) : Prop :=
  ∀ x ∈ moments, x.begins = false ∧ x.completes = false

/-- A run whose inputs are what the form says: its text, and of each parameter the name, the value
of the field and the type. Where there are no parameters, there are no lists of them either. -/
structure Gives (f : Form) (j : Job) : Prop where
  body : j.body = f.body
  names : j.arguments.names =
    if f.parameters = [] then none else some (f.parameters.map Parameter.name)
  values : j.arguments.values = if f.parameters = [] then none else some f.values
  types : j.arguments.types =
    if f.parameters = [] then none
    else some (f.parameters.map fun p => Header.argumentType p.type)

/-- The form shows a result and nothing else. -/
def Shows (f : Form) : ExecutionResult → Prop
  | .ok v => f.resultText = some v.text ∧ f.errorText = none
  | .error e => f.resultText = none ∧ f.errorText = some e.message

section

variable {m : Type → Type} [Monad m] (e : Engine m)
  (comesTo : m (Except EngineError Value) → Except EngineError Value → Prop)

/-- What may happen next. The worker only ends while it runs, and with an outcome of its job. -/
def Possible (f : Form) : Action → Prop
  | .finish o => ∃ j, f.pending = some (.running j) ∧ comesTo (e.execute j.body j.arguments).run o
  | .die => ∃ j, f.pending = some (.running j)
  | _ => True

/-- The form that a session has led to, and what has happened so far, the latest first. -/
inductive Session : List Moment → Form → Prop
  | start : Session [] empty
  | step {past : List Moment} {f : Form} (h : Session past f) (a : Action)
      (ha : f.Possible e comesTo a) : Session (⟨f, a⟩ :: past) (f.act a).1

/-- The result of a job for which the worker did nothing but end. -/
inductive Delivers (j : Job) : List Action → ExecutionResult → Prop
  | finish (o : Except EngineError Value)
      (ho : comesTo (e.execute j.body j.arguments).run o) :
      Delivers j [.finish o] (o.mapError .engine)
  | die : Delivers j [.die] (.error .workerLost)

end

/-- All that an action can do. It leaves the form alone, it edits a form that is not busy, it begins
a run or completes one, or it ends the work on one. -/
inductive Moment.Effect {m : Type → Type} [Monad m] (e : Engine m)
    (comesTo : m (Except EngineError Value) → Except EngineError Value → Prop) (x : Moment) : Prop
  | keep (hbegins : x.begins = false) (hcompletes : x.completes = false)
      (hwork : x.action.isWork = false) (hnext : x.next = x.form)
  | edit (body : String) (enabled : Bool) (parameters : List Parameter) (values : List String)
      (hbegins : x.begins = false) (hcompletes : x.completes = false) (hbusy : x.form.busy = false)
      (hfields : x.form.values.length = x.form.parameters.length →
        values.length = parameters.length)
      (hnext : x.next = { x.form with body, enabled, parameters, values })
  | begins (hbegins : x.begins = true) (hcompletes : x.completes = false)
      (hbusy : x.form.busy = false)
      (hnext : x.next = { x.form with
        pending := some (.running x.form.job), resultText := none, errorText := none })
  | completes (execution : Execution) (r : ExecutionResult) (hbegins : x.begins = false)
      (hcompletes : x.completes = true) (hpending : x.form.pending = some execution)
      (htake : execution.take.1 = some r) (hnext : x.next = x.form.withResult r)
  | works (j : Job) (execution : Execution) (r : ExecutionResult) (hbegins : x.begins = false)
      (hcompletes : x.completes = false) (hwork : x.action.isWork = true)
      (hpending : x.form.pending = some (.running j)) (htake : execution.take.1 = some r)
      (hdelivers : Delivers e comesTo j [x.action] r)
      (hnext : x.next = { x.form with pending := some execution })

section

variable {m : Type → Type} [Monad m] {e : Engine m}
  {comesTo : m (Except EngineError Value) → Except EngineError Value → Prop} {f : Form}

/-! ### Actions -/

theorem gives_job (f : Form) : f.Gives f.job := by
  by_cases hnone : f.parameters = []
  · constructor <;> simp [job, Arguments.forHeader, Arguments.none, hnone]
  · constructor <;>
      simp [job, Arguments.forHeader, Arguments.ofParameters, Arguments.ofLists, hnone]

theorem setBody_of_busy (h : f.busy = true) (text : String) : f.setBody text = (f, false) :=
  if_pos h

theorem leaveBody_of_busy (h : f.busy = true) : f.leaveBody = f :=
  if_pos h

theorem setValue_of_busy (h : f.busy = true) (index : Nat) (text : String) :
    f.setValue index text = (f, false) :=
  if_pos h

theorem execute_of_busy (h : f.busy = true) : f.execute = (f, false) := by
  rw [execute, canExecute, h, Bool.not_true, Bool.and_false]
  rfl

theorem effect_setBody (f : Form) (text : String) :
    (Moment.mk f (.setBody text)).Effect e comesTo := by
  cases hbusy : f.busy with
  | true => exact .keep rfl rfl rfl (congrArg Prod.fst (setBody_of_busy hbusy text))
  | false =>
      refine .edit text f.enabled f.parameters f.values rfl rfl hbusy id ?_
      simp only [Moment.next, act, setBody, hbusy, Bool.false_eq_true, if_false]

/-- The fields follow the header of the text. -/
theorem exists_leaveBody (hbusy : f.busy = false) :
    ∃ enabled parameters values,
      f.leaveBody = { f with enabled, parameters, values } ∧
        (f.values.length = f.parameters.length → values.length = parameters.length) := by
  rw [leaveBody, hbusy, if_neg Bool.false_ne_true]
  by_cases hblank : Text.isBlankText f.body.toList = true
  · exact ⟨false, [], [], if_pos hblank, fun _ => rfl⟩
  · rw [if_neg hblank]
    by_cases hsame : Header.parameters f.body.toList = f.parameters
    · exact ⟨true, f.parameters, f.values, if_pos hsame, id⟩
    · exact ⟨true, _, _, if_neg hsame, fun _ => List.length_map _⟩

theorem effect_leaveBody (f : Form) : (Moment.mk f .leaveBody).Effect e comesTo := by
  cases hbusy : f.busy with
  | true => exact .keep rfl rfl rfl (leaveBody_of_busy hbusy)
  | false =>
      obtain ⟨enabled, parameters, values, hnext, hfields⟩ := exists_leaveBody hbusy
      exact .edit f.body enabled parameters values rfl rfl hbusy hfields hnext

theorem effect_setValue (f : Form) (index : Nat) (text : String) :
    (Moment.mk f (.setValue index text)).Effect e comesTo := by
  cases hbusy : f.busy with
  | true => exact .keep rfl rfl rfl (congrArg Prod.fst (setValue_of_busy hbusy index text))
  | false =>
      by_cases hindex : index < f.values.length
      · refine .edit f.body f.enabled f.parameters (f.values.set index text) rfl rfl hbusy
          List.length_set.trans ?_
        simp only [Moment.next, act, setValue, hbusy, Bool.false_eq_true, if_false, if_pos hindex]
      · refine .keep rfl rfl rfl ?_
        simp only [Moment.next, act, setValue, hbusy, Bool.false_eq_true, if_false, if_neg hindex]

theorem effect_execute (f : Form) : (Moment.mk f .execute).Effect e comesTo := by
  cases hcan : f.canExecute with
  | true =>
      have hact : f.execute = ({ f with
          pending := some (.running f.job), resultText := none, errorText := none }, true) :=
        if_pos hcan
      have hbusy : f.busy = false := by
        rw [canExecute, Bool.and_eq_true, Bool.not_eq_true'] at hcan
        exact hcan.2
      exact .begins (congrArg Prod.snd hact) rfl hbusy (congrArg Prod.fst hact)
  | false =>
      have hact : f.execute = (f, false) := if_neg (Bool.not_eq_true _ ▸ hcan)
      exact .keep (congrArg Prod.snd hact) rfl rfl (congrArg Prod.fst hact)

/-- A poll or a wait brings a result if the worker has left one or is gone. -/
theorem effect_collect (f : Form) {a : Action} (ha : a = .poll ∨ a = .wait) :
    (Moment.mk f a).Effect e comesTo := by
  cases htake : f.pending.bind fun execution => execution.take.1 with
  | none =>
      have hact : f.collect = (f, false) := by
        rw [collect, htake]
      obtain rfl | rfl := ha
      all_goals
        exact .keep rfl (congrArg Prod.snd hact) rfl (congrArg Prod.fst hact)
  | some r =>
      have hact : f.collect = (f.withResult r, true) := by
        rw [collect, htake]
      obtain ⟨execution, hpending, hresult⟩ := Option.bind_eq_some_iff.mp htake
      obtain rfl | rfl := ha
      all_goals
        exact .completes execution r rfl (congrArg Prod.snd hact) hpending hresult
          (congrArg Prod.fst hact)

/-- All that a possible action can do. -/
theorem Possible.effect {a : Action} (h : f.Possible e comesTo a) :
    (Moment.mk f a).Effect e comesTo := by
  cases a with
  | setBody text => exact effect_setBody f text
  | leaveBody => exact effect_leaveBody f
  | setValue index text => exact effect_setValue f index text
  | execute => exact effect_execute f
  | poll => exact effect_collect f (.inl rfl)
  | wait => exact effect_collect f (.inr rfl)
  | finish o =>
      obtain ⟨j, hpending, ho⟩ := h
      refine .works j (.finished (o.mapError .engine)) _ rfl rfl rfl hpending rfl (.finish o ho) ?_
      simp only [Moment.next, act, advance, hpending, Option.map_some, Execution.finish]
  | die =>
      obtain ⟨j, hpending⟩ := h
      refine .works j .gone _ rfl rfl rfl hpending rfl .die ?_
      simp only [Moment.next, act, advance, hpending, Option.map_some, Execution.lose]

/-! ### Steps -/

/-- The texts belong to the last run, and there is a value for each parameter. -/
structure Sound (f : Form) : Prop where
  fields : f.values.length = f.parameters.length
  single : f.resultText = none ∨ f.errorText = none
  blank : f.busy = true → f.resultText = none ∧ f.errorText = none

theorem sound_empty : empty.Sound where
  fields := rfl
  single := .inl rfl
  blank h := by cases h

theorem busy_of_pending {execution : Execution} (h : f.pending = some execution) :
    f.busy = true := by
  rw [busy, h]
  rfl

/-- A result is shown instead of what was shown before the run. -/
theorem Sound.shows (h : f.Sound) (hbusy : f.busy = true) (r : ExecutionResult) :
    (f.withResult r).Shows r := by
  obtain ⟨hresult, herror⟩ := h.blank hbusy
  cases r with
  | ok v => exact ⟨rfl, herror⟩
  | error err => exact ⟨hresult, rfl⟩

theorem Sound.next {x : Moment} (h : x.form.Sound) (hx : x.Effect e comesTo) : x.next.Sound := by
  cases hx with
  | keep _ _ _ hnext =>
      rw [hnext]
      exact h
  | edit body enabled parameters values _ _ hbusy hfields hnext =>
      rw [hnext]
      exact ⟨hfields h.fields, h.single, h.blank⟩
  | begins _ _ _ hnext =>
      rw [hnext]
      exact ⟨h.fields, .inl rfl, fun _ => ⟨rfl, rfl⟩⟩
  | completes execution r _ _ hpending _ hnext =>
      have hbusy := busy_of_pending hpending
      obtain ⟨hresult, herror⟩ := h.blank hbusy
      rw [hnext]
      cases r with
      | ok v => exact ⟨h.fields, .inr herror, fun hidle => by cases hidle⟩
      | error err => exact ⟨h.fields, .inl hresult, fun hidle => by cases hidle⟩
  | works j execution r _ _ _ hpending _ _ hnext =>
      rw [hnext]
      exact ⟨h.fields, h.single, fun _ => h.blank (busy_of_pending hpending)⟩

/-- A form is busy from the beginning of a run to its completion. -/
theorem Moment.Effect.busy_next {x : Moment} (hx : x.Effect e comesTo) :
    x.next.busy = (x.begins || x.form.busy && !x.completes) := by
  cases hx with
  | keep hbegins hcompletes _ hnext => simp [hbegins, hcompletes, hnext]
  | edit _ _ _ _ hbegins hcompletes _ _ hnext => simp [hbegins, hcompletes, hnext, busy]
  | begins hbegins hcompletes _ hnext => simp [hbegins, hnext, busy]
  | completes execution r hbegins hcompletes _ _ hnext =>
      cases r <;> simp [hbegins, hcompletes, hnext, withResult, busy]
  | works j execution r hbegins hcompletes _ hpending _ _ hnext =>
      simp [hbegins, hcompletes, hpending, hnext, busy]

/-- A run that began at `x` is pending after `between`: its inputs are as they were, and it is
still running unless the worker has ended, and then its result is ready. -/
structure Pending (e : Engine m)
    (comesTo : m (Except EngineError Value) → Except EngineError Value → Prop) (x : Moment)
    (between : List Moment) (f : Form) : Prop where
  begins : x.begins = true
  quiet : Quiet between
  body : f.body = x.form.body
  parameters : f.parameters = x.form.parameters
  values : f.values = x.form.values
  stands : f.pending = some (.running x.form.job) ∧ work between = [] ∨
    ∃ execution r, f.pending = some execution ∧ execution.take.1 = some r ∧
      Delivers e comesTo x.form.job (work between) r

theorem Pending.busy {x : Moment} {between : List Moment} (h : Pending e comesTo x between f) :
    f.busy = true := by
  obtain ⟨hpending, -⟩ | ⟨execution, r, hpending, -, -⟩ := h.stands
  · exact busy_of_pending hpending
  · exact busy_of_pending hpending

theorem Quiet.cons {x : Moment} {between : List Moment} (h : Quiet between)
    (hbegins : x.begins = false) (hcompletes : x.completes = false) : Quiet (x :: between) :=
  List.forall_mem_cons.mpr ⟨⟨hbegins, hcompletes⟩, h⟩

theorem work_cons_of_isWork {x : Moment} (h : x.action.isWork = true) (between : List Moment) :
    work (x :: between) = x.action :: work between :=
  List.filter_cons_of_pos h

theorem work_cons_of_not_isWork {x : Moment} (h : x.action.isWork = false)
    (between : List Moment) : work (x :: between) = work between :=
  List.filter_cons_of_neg (Bool.not_eq_true _ ▸ h)

/-- Only the result of a pending run completes it. -/
theorem Moment.Effect.exists_take {x : Moment} (hx : x.Effect e comesTo)
    (hcompletes : x.completes = true) :
    ∃ execution r, x.form.pending = some execution ∧ execution.take.1 = some r ∧
      x.next = x.form.withResult r := by
  cases hx with
  | keep _ hnot _ _ | edit _ _ _ _ _ hnot _ _ _ | begins _ hnot _ _
  | works _ _ _ _ hnot _ _ _ _ _ =>
      rw [hnot] at hcompletes
      cases hcompletes
  | completes execution r _ _ hpending htake hnext => exact ⟨execution, r, hpending, htake, hnext⟩

/-- A run that has just begun has the inputs of the form. -/
theorem Moment.Effect.pending {x : Moment} (hx : x.Effect e comesTo) (hbegins : x.begins = true) :
    Pending e comesTo x [] x.next := by
  cases hx with
  | keep hnot _ _ _ | edit _ _ _ _ hnot _ _ _ _ | completes _ _ hnot _ _ _ _
  | works _ _ _ hnot _ _ _ _ _ _ =>
      rw [hnot] at hbegins
      cases hbegins
  | begins _ _ _ hnext =>
      rw [hnext]
      exact ⟨hbegins, List.forall_mem_nil _, rfl, rfl, rfl, .inl ⟨rfl, rfl⟩⟩

/-- Nothing but its completion ends a pending run, and nothing changes its inputs. -/
theorem Pending.next {x y : Moment} {between : List Moment}
    (h : Pending e comesTo x between y.form) (hy : y.Effect e comesTo) :
    y.completes = true ∨ Pending e comesTo x (y :: between) y.next := by
  cases hy with
  | keep hbegins hcompletes hwork hnext =>
      refine .inr ⟨h.begins, h.quiet.cons hbegins hcompletes, ?_, ?_, ?_, ?_⟩
      all_goals
        rw [hnext]
      · exact h.body
      · exact h.parameters
      · exact h.values
      · rw [work_cons_of_not_isWork hwork]
        exact h.stands
  | edit _ _ _ _ _ _ hbusy _ _ =>
      rw [h.busy] at hbusy
      cases hbusy
  | begins _ _ hbusy _ =>
      rw [h.busy] at hbusy
      cases hbusy
  | completes _ _ _ hcompletes _ _ _ => exact .inl hcompletes
  | works j execution r hbegins hcompletes hwork hpending htake hdelivers hnext =>
      refine .inr ⟨h.begins, h.quiet.cons hbegins hcompletes, ?_, ?_, ?_, ?_⟩
      all_goals
        rw [hnext]
      · exact h.body
      · exact h.parameters
      · exact h.values
      · refine .inr ⟨execution, r, rfl, htake, ?_⟩
        rw [work_cons_of_isWork hwork]
        obtain ⟨hrunning, hwork'⟩ | ⟨_, _, hended, hready, -⟩ := h.stands
        · rw [hpending] at hrunning
          cases hrunning
          rw [hwork']
          exact hdelivers
        · -- The worker has ended before, so it is not running.
          rw [hpending] at hended
          cases hended
          cases hready

/-! ### Sessions -/

variable {past : List Moment}

/-- A moment of a session found the form that the session had led to by then. -/
theorem Session.of_append {later earlier : List Moment} {y : Moment} {f : Form}
    (h : Session e comesTo (later ++ y :: earlier) f) :
    Session e comesTo earlier y.form ∧ y.Effect e comesTo := by
  induction later generalizing f with
  | nil =>
      cases h with
      | step h a ha => exact ⟨h, ha.effect⟩
  | cons z later ih =>
      cases h with
      | step h a ha => exact ih h

theorem Session.sound (h : Session e comesTo past f) : f.Sound := by
  induction h with
  | start => exact sound_empty
  | step _ a ha ih => exact ih.next ha.effect

/-- A form is busy with the last run that has begun. -/
theorem Session.exists_pending (h : Session e comesTo past f) (hbusy : f.busy = true) :
    ∃ between x earlier, past = between ++ x :: earlier ∧ Pending e comesTo x between f := by
  induction h with
  | start => cases hbusy
  | @step past g _ a ha ih =>
      have heffect := ha.effect
      cases hbegins : (Moment.mk g a).begins with
      | true => exact ⟨[], ⟨g, a⟩, past, rfl, heffect.pending hbegins⟩
      | false =>
          -- What has not just begun was pending before, and was not completed now.
          have hnext : (g.busy && !(Moment.mk g a).completes) = true := by
            have hkept := heffect.busy_next.symm.trans hbusy
            rwa [hbegins, Bool.false_or] at hkept
          obtain ⟨hbefore, hcompletes⟩ := Bool.and_eq_true_iff.mp hnext
          obtain ⟨between, x, earlier, rfl, hpending⟩ := ih hbefore
          obtain hdone | hstill := hpending.next (y := ⟨g, a⟩) heffect
          · rw [hdone] at hcompletes
            cases hcompletes
          · exact ⟨⟨g, a⟩ :: between, x, earlier, rfl, hstill⟩

/-- From its beginning on, a run is pending or has been completed just once. -/
theorem Session.countP_completes {between earlier : List Moment} {x : Moment}
    (h : Session e comesTo (between ++ x :: earlier) f) (hx : x.begins = true)
    (hbetween : ∀ z ∈ between, z.begins = false) :
    between.countP Moment.completes = if f.busy then 0 else 1 := by
  induction between generalizing f with
  | nil =>
      cases h with
      | step h a ha =>
          have hbusy := ha.effect.busy_next
          rw [hx, Bool.true_or] at hbusy
          exact (if_pos hbusy).symm
  | cons z between ih =>
      obtain ⟨hz, hrest⟩ := List.forall_mem_cons.mp hbetween
      cases h with
      | @step _ g h a ha =>
          have hnext : (g.act a).1.busy = (g.busy && !(Moment.mk g a).completes) := by
            have hbusy := ha.effect.busy_next
            rwa [hz, Bool.false_or] at hbusy
          rw [hnext, List.countP_cons, ih h hrest]
          cases hcompletes : (Moment.mk g a).completes with
          | true =>
              obtain ⟨_, _, hpending, -, -⟩ := ha.effect.exists_take hcompletes
              simp [busy_of_pending hpending]
          | false => simp

/-- What a poll or a wait brings is what the worker left for the run that was pending. -/
theorem Session.exists_delivers {y : Moment} {earlier : List Moment}
    (h : Session e comesTo earlier y.form) (hy : y.Effect e comesTo)
    (hcompletes : y.completes = true) :
    ∃ between x rest r, earlier = between ++ x :: rest ∧ x.begins = true ∧ Quiet between ∧
      Delivers e comesTo x.form.job (work between) r ∧ y.next.Shows r := by
  obtain ⟨execution, r, hown, htake, hnext⟩ := hy.exists_take hcompletes
  have hbusy := busy_of_pending hown
  obtain ⟨between, x, rest, rfl, hpending⟩ := h.exists_pending hbusy
  refine ⟨between, x, rest, r, rfl, hpending.begins, hpending.quiet, ?_, ?_⟩
  · obtain ⟨hrunning, -⟩ | ⟨_, r', hended, hready, hdelivers⟩ := hpending.stands
    · -- A worker that still runs has no result to take.
      rw [hown] at hrunning
      cases hrunning
      cases htake
    · rw [hown] at hended
      cases hended
      rw [htake] at hready
      cases hready
      exact hdelivers
  · rw [hnext]
    exact h.sound.shows hbusy r

/-- A result of a pending run can be collected as soon as the worker has ended. -/
theorem Pending.collect_iff {x : Moment} {between : List Moment}
    (h : Pending e comesTo x between f) : f.collect.2 = true ↔ work between ≠ [] := by
  obtain ⟨hpending, hwork⟩ | ⟨execution, r, hpending, htake, hdelivers⟩ := h.stands
  · simp [collect, hpending, hwork, Execution.take]
  · have hended : work between ≠ [] := by
      intro hnone
      rw [hnone] at hdelivers
      cases hdelivers
    simp [collect, hpending, htake, hended]

end

/-- A form session loses, doubles and mixes up nothing. -/
structure Accounted {m : Type → Type} [Monad m] (e : Engine m)
    (comesTo : m (Except EngineError Value) → Except EngineError Value → Prop)
    (past : List Moment) (f : Form) : Prop where
  /-- There is one value for each parameter. -/
  fields : f.values.length = f.parameters.length
  /-- At most one of the texts is set. -/
  single : f.resultText = none ∨ f.errorText = none
  /-- The inputs of a pending run are those that it began with, and its result can be collected as
  soon as the worker has ended. -/
  pending : f.busy = true → ∃ between x earlier, past = between ++ x :: earlier ∧
    x.begins = true ∧ Quiet between ∧ f.body = x.form.body ∧ f.parameters = x.form.parameters ∧
    f.values = x.form.values ∧ (f.collect.2 = true ↔ work between ≠ [])
  /-- While a run is pending, every input is refused. -/
  refuses : f.busy = true → (∀ text, f.setBody text = (f, false)) ∧ f.leaveBody = f ∧
    (∀ index text, f.setValue index text = (f, false)) ∧ f.execute = (f, false)
  /-- A run is completed at most once before the next one begins. -/
  once : ∀ between x earlier, past = between ++ x :: earlier → x.begins = true →
    (∀ y ∈ between, y.begins = false) → between.countP Moment.completes ≤ 1
  /-- Every result that was brought is what the worker left for the last run that began, which had
  not been completed before: the outcome of the engine on what the form said then, or the loss of
  the worker. -/
  delivered : ∀ later y earlier, past = later ++ y :: earlier → y.completes = true →
    ∃ between x rest j r, earlier = between ++ x :: rest ∧ x.begins = true ∧ Quiet between ∧
      x.form.Gives j ∧ Delivers e comesTo j (work between) r ∧ y.next.Shows r

/-- Whatever the user and the worker do in whatever order, nothing is lost, doubled or mixed up. -/
theorem accounted_of_session {m : Type → Type} [Monad m] {e : Engine m}
    {comesTo : m (Except EngineError Value) → Except EngineError Value → Prop}
    {past : List Moment} {f : Form} (h : Session e comesTo past f) :
    Accounted e comesTo past f where
  fields := h.sound.fields
  single := h.sound.single
  pending hbusy := by
    obtain ⟨between, x, earlier, hpast, hpending⟩ := h.exists_pending hbusy
    exact ⟨between, x, earlier, hpast, hpending.begins, hpending.quiet, hpending.body,
      hpending.parameters, hpending.values, hpending.collect_iff⟩
  refuses hbusy :=
    ⟨setBody_of_busy hbusy, leaveBody_of_busy hbusy, setValue_of_busy hbusy,
      execute_of_busy hbusy⟩
  once between x earlier hpast hx hbetween := by
    rw [hpast] at h
    rw [h.countP_completes hx hbetween]
    split <;> decide
  delivered later y earlier hpast hcompletes := by
    rw [hpast] at h
    obtain ⟨hearlier, heffect⟩ := h.of_append
    obtain ⟨between, x, rest, r, hrun, hbegins, hquiet, hdelivers, hshows⟩ :=
      hearlier.exists_delivers heffect hcompletes
    exact ⟨between, x, rest, x.form.job, r, hrun, hbegins, hquiet, gives_job x.form, hdelivers,
      hshows⟩

/-- What a run on the built-in toolchain can come to. -/
def ComesTo (x : Work (Except EngineError Value)) (o : Except EngineError Value) : Prop :=
  ∃ c c', x.run c = some (o, c')

/-- A scriptlet with one parameter. -/
def echoBody : String :=
  "public static int Echo(int a) \x7b return a; \x7d"

/-- Run with the value that a user has entered, it returns that value. -/
theorem exists_comesTo_echoBody :
    ∃ v : Value, v.text = "42" ∧ ComesTo ((Engine.builtin .standard 1024 1000).execute echoBody
      ⟨some ["a"], some ["42"], some [.int]⟩).run (.ok v) := by
  have hrun : ((((Engine.builtin .standard 1024 1000).execute echoBody
      ⟨some ["a"], some ["42"], some [.int]⟩).run .silent).bind fun r => r.1.toOption).map
        Value.text = some "42" := by
    decide +kernel
  obtain ⟨v, hv, htext⟩ := Option.map_eq_some_iff.1 hrun
  obtain ⟨⟨o, c'⟩, ho, hv⟩ := Option.bind_eq_some_iff.1 hv
  cases o with
  | error err => cases hv
  | ok w =>
      obtain rfl := Option.some.inj hv
      exact ⟨w, htext, .silent, c', ho⟩

/-- A session in which the field of a parameter is filled and the scriptlet is run. -/
theorem accounted_filledField :
    ∃ past f, Session (.builtin .standard 1024 1000) ComesTo past f ∧
      f.values = ["42"] ∧ f.resultText = some "42" ∧
      Accounted (.builtin .standard 1024 1000) ComesTo past f := by
  obtain ⟨v, htext, hv⟩ := exists_comesTo_echoBody
  have hparameters : Header.parameters echoBody.toList = [⟨some "int", "a"⟩] := by
    decide +kernel
  have hblank : Text.isBlankText echoBody.toList = false := by decide +kernel
  have hleave : (Form.mk echoBody [] [] false none none none).leaveBody =
      ⟨echoBody, [⟨some "int", "a"⟩], [""], true, none, none, none⟩ := by
    rw [leaveBody, hparameters, hblank]
    rfl
  have htyped : Session (.builtin .standard 1024 1000) ComesTo
      [⟨empty, .setBody echoBody⟩] ⟨echoBody, [], [], false, none, none, none⟩ :=
    Session.start.step (.setBody echoBody) trivial
  have hfields := htyped.step .leaveBody trivial
  rw [act, hleave] at hfields
  have hfilled := hfields.step (.setValue 0 "42") trivial
  have hbegun := hfilled.step .execute trivial
  have htype : Header.argumentType (some "int") = .int := by decide +kernel
  rw [← htype] at hv
  have hended := hbegun.step (.finish (.ok v)) ⟨_, rfl, hv⟩
  have hshown := hended.step .poll trivial
  exact ⟨_, _, hshown, rfl, congrArg some htext, accounted_of_session hshown⟩

end Form

end Scriptlet
