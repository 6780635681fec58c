import Scriptlet.Engine.Builtin
import Scriptlet.Proofs.Engine.Arguments
import Scriptlet.Proofs.Image.Codec

namespace Scriptlet

/-!
# Checked calls

Once the entry point of a scriptlet is found, its arguments are checked. The method is called if
none of them is wrong, and always with the number of arguments that it takes.
-/

open Image (bind_eq_ok_iff)
open Machine (widenAll bindArguments BindError)

/-- The entry point that the built-in toolchain makes of a scriptlet in a template. -/
structure Builtin.Resolves (t : Template) (body : String) (p : Machine.Program) (h : Code.Handle)
    (method : Code.Method) : Prop where
  loaded : ∃ image, compileUnit (t.wrap body) = .ok image ∧ loadImage image = .ok p
  entry : p.entry t.container = .ok h
  method : p.method? h = some method

/-- The entry point that the built-in toolchain finds, or why there is none. -/
def Builtin.found (limit steps : ℕ) (t : Template) (body : String) :
    Except EngineError (Entry Work) := do
  let image ← (compileUnit (t.wrap body)).mapError .compile
  let p ← (loadImage image).mapError (.resolution ∘ .load)
  (entry limit steps p t.container).mapError (.resolution ∘ .notFound)

namespace Engine

section

variable {α β γ ε ε' : Type}

theorem mapError_eq_ok_iff {x : Except ε α} {f : ε → ε'} {r : α} :
    x.mapError f = .ok r ↔ x = .ok r := by
  cases x <;> simp [Except.mapError]

theorem adapt_mk_pure (x : Except ε α) (f : ε → ε') :
    (ExceptT.mk (pure x) : ExceptT ε Work α).adapt f = ExceptT.mk (pure (x.mapError f)) := rfl

theorem mk_pure_bind (x : Except ε α) (f : α → Except ε β) :
    ((ExceptT.mk (pure x) : ExceptT ε Work α) >>= fun r => ExceptT.mk (pure (f r))) =
      ExceptT.mk (pure (x >>= f)) := by
  cases x with
  | error e => rfl
  | ok r => rfl

theorem mk_map_bind (x : Except ε α) (f : α → β) (g : ε → ε') (next : β → ExceptT ε' Work γ) :
    (ExceptT.mk (pure ((x.map f).mapError g)) >>= next) =
      ExceptT.mk (pure (x.mapError g)) >>= fun r => next (f r) := by
  cases x with
  | error e => rfl
  | ok r => rfl

end

section

variable {t t' : Template} {body : String} {a : Arguments} {p : Machine.Program} {h : Code.Handle}
  {method : Code.Method} {limit steps : ℕ} {c : Console} {vs bound : List Value}
  {e : CoercionError} {failure : BindError}

theorem resolve_eq (limit steps : ℕ) (t : Template) (body : String) :
    resolve (Builtin.toolchain limit steps) t body =
      ExceptT.mk (pure (Builtin.found limit steps t body)) := by
  simp only [resolve, Builtin.toolchain, adapt_mk_pure, mk_map_bind, mk_pure_bind, Builtin.found]

/-- An entry point is found just if every stage before it succeeds. -/
theorem found_eq_ok_iff {entry : Entry Work} : Builtin.found limit steps t body = .ok entry ↔
    ∃ p h method, Builtin.Resolves t body p h method ∧
      entry = ⟨method.name, method.params, Builtin.invokeMethod limit steps p h method⟩ := by
  simp only [Builtin.found, bind_eq_ok_iff, mapError_eq_ok_iff, Builtin.entry]
  constructor
  · rintro ⟨image, hcompile, p, hload, h, hentry, hmethod⟩
    cases hfound : p.method? h with
    | none =>
        rw [hfound] at hmethod
        cases hmethod
    | some method =>
        rw [hfound] at hmethod
        obtain rfl := Except.ok.inj hmethod
        exact ⟨p, h, method, ⟨⟨image, hcompile, hload⟩, hentry, hfound⟩, rfl⟩
  · rintro ⟨p, h, method, ⟨⟨image, hcompile, hload⟩, hentry, hmethod⟩, rfl⟩
    refine ⟨image, hcompile, p, hload, h, hentry, ?_⟩
    rw [hmethod]
    rfl

theorem run_invokeMethod_error (hbind : bindArguments method vs = .error failure) :
    StateT.run (Builtin.invokeMethod limit steps p h method vs).run c =
      some (.error (.bind failure), c) := by
  rw [Builtin.invokeMethod, hbind]
  rfl

theorem run_invokeMethod_ok (hbind : bindArguments method vs = .ok bound) :
    StateT.run (Builtin.invokeMethod limit steps p h method vs).run c =
      (Machine.invoke p limit steps h bound).map fun o =>
        (o.result.mapError fun f => .raised f.exceptionClass f.message, c.print o.output) := by
  have hbound : (ExceptT.mk (pure ((Except.ok bound).mapError .bind)) :
      ExceptT CallFailure Work (List Value)) = pure bound := rfl
  rw [Builtin.invokeMethod, hbind, hbound]
  simp only [pure_bind]
  cases Machine.invoke p limit steps h bound with
  | none => rfl
  | some o =>
      obtain ⟨r, output⟩ := o
      cases r with
      | ok v => rfl
      | error f => rfl

theorem run_adapt {α ε ε' : Type} {f : ε → ε'} {x : ExceptT ε Work α} :
    StateT.run (ExceptT.adapt f x).run c =
      (StateT.run x.run c).map fun r => (r.1.mapError f, r.2) := by
  change (x c).bind _ = (x c).map _
  cases x c with
  | none => rfl
  | some r => rfl

/-- Behind the entry point, arguments are read and bound. -/
theorem executeIn_eq (hvalid : validate body a = .ok ())
    (hresolves : Builtin.Resolves t body p h method) (hcount : a.count = method.params.length) :
    (builtin t' limit steps).executeIn t body a = (do
      let values ← ExceptT.mk (pure ((coerced a).mapError .coercion))
      (Builtin.invokeMethod limit steps p h method values).adapt
        (callError (a.names.getD []))) := by
  have hstart : (ExceptT.mk (pure ((Except.ok ()).mapError .validation)) :
      ExceptT EngineError Work Unit) = pure () := rfl
  have hfound : resolve (Builtin.toolchain limit steps) t body =
      pure ⟨method.name, method.params, Builtin.invokeMethod limit steps p h method⟩ := by
    rw [resolve_eq, found_eq_ok_iff.2 ⟨p, h, method, hresolves, rfl⟩]
    rfl
  simp only [executeIn, hvalid, hstart, builtin, hfound, pure_bind, hcount, ne_eq,
    not_true_eq_false, if_false]

end

/-- What the caller sees of a call that has ended. -/
def ending (c : Console) (o : Machine.Outcome) : Except EngineError Value × Console :=
  (o.result.mapError fun f => .invocation f.exceptionClass f.message, c.print o.output)

/-- The only errors of a call are exceptions. -/
theorem eq_invocation_of_ending {c c' : Console} {o : Machine.Outcome} {e : EngineError}
    (h : ending c o = (.error e, c')) : ∃ k message, e = .invocation k message := by
  have herror := (Prod.mk.inj h).1
  cases hresult : o.result with
  | ok v =>
      rw [hresult] at herror
      cases herror
  | error f =>
      rw [hresult] at herror
      exact ⟨_, _, (Except.error.inj herror).symm⟩

/-- A run of a scriptlet in a template, on a console: nothing if it takes too many steps. -/
def outcome (e : Engine Work) (t : Template) (body : String) (a : Arguments) (c : Console) :
    Option (Except EngineError Value × Console) :=
  StateT.run (e.executeIn t body a).run c

section

variable {t t' : Template} {body : String} {a : Arguments} {p : Machine.Program} {h : Code.Handle}
  {method : Code.Method} {limit steps : ℕ} {c : Console} {vs bound : List Value}
  {e : CoercionError} {failure : BindError} (hvalid : validate body a = .ok ())
  (hresolves : Builtin.Resolves t body p h method) (hcount : a.count = method.params.length)

include hvalid hresolves hcount

theorem outcome_of_unreadable (he : coerced a = .error e) :
    (builtin t' limit steps).outcome t body a c = some (.error (.coercion e), c) := by
  rw [outcome, executeIn_eq hvalid hresolves hcount, he]
  rfl

theorem outcome_of_misfit (hvs : coerced a = .ok vs)
    (hbind : bindArguments method vs = .error failure) :
    (builtin t' limit steps).outcome t body a c =
      some (.error (callError (a.names.getD []) (.bind failure)), c) := by
  rw [outcome, executeIn_eq hvalid hresolves hcount, hvs]
  refine run_adapt.trans ?_
  rw [run_invokeMethod_error hbind]
  rfl

theorem outcome_of_bound (hvs : coerced a = .ok vs) (hbind : bindArguments method vs = .ok bound) :
    (builtin t' limit steps).outcome t body a c =
      (Machine.invoke p limit steps h bound).map (ending c) := by
  rw [outcome, executeIn_eq hvalid hresolves hcount, hvs]
  refine run_adapt.trans ?_
  rw [run_invokeMethod_ok hbind, Option.map_map]
  refine Option.map_congr fun o _ => ?_
  obtain ⟨r, output⟩ := o
  cases r with
  | ok v => rfl
  | error f => rfl

end

/-! ### Argument errors -/

/-- How a run deals with its arguments, where `invoke` is the call of the method. -/
structure ChecksArguments (a : Arguments) (method : Code.Method)
    (invoke : ℕ → ℕ → List Value → Option Machine.Outcome)
    (run : ℕ → ℕ → Console → Option (Except EngineError Value × Console)) : Prop where
  /-- An argument is wrong if a text cannot be read or a value does not widen. -/
  fails_iff (limit steps : ℕ) (c : Console) :
    (∃ e c', run limit steps c = some (.error (.coercion e), c')) ↔ a.Wrong method.params
  /-- This is found out without a step of the method, and nothing is printed. -/
  reports {i : ℕ} {f : CoercionFailure} : a.Reported method.params i f →
    ∃ n, a.Label i n ∧ ∀ limit steps c, run limit steps c = some (.error (.coercion ⟨i, n, f⟩), c)
  /-- Nothing else is reported. -/
  reported {limit steps : ℕ} {c c' : Console} {e : CoercionError} :
    run limit steps c = some (.error (.coercion e), c') →
      a.Reported method.params e.position e.failure ∧ a.Label e.position e.name ∧ c' = c
  /-- If no argument is wrong, the method is called. -/
  calls : ¬a.Wrong method.params → ∃ bound, a.Widened method.params bound ∧
    (∀ limit steps c, run limit steps c = (invoke limit steps bound).map (ending c)) ∧
      ∀ limit c, 0 < limit → run limit 0 c = none
  /-- The values that are read are never too few or too many to be bound. -/
  binds {values : List Value} {name : String} {expected found : ℕ} : coerced a = .ok values →
    bindArguments method values ≠ .error (.arity name expected found)
  resolves {limit steps : ℕ} {c c' : Console} {name : String} {expected found : ℕ} :
    run limit steps c ≠ some (.error (.resolution (.arity name expected found)), c')

section

variable {t : Template} {body : String} {a : Arguments} {p : Machine.Program} {h : Code.Handle}
  {method : Code.Method} {vs : List Value}

/-- As many values are bound as the method has parameters. -/
theorem bindArguments_eq (hvalid : validate body a = .ok ())
    (hcount : a.count = method.params.length) (hvs : coerced a = .ok vs) :
    vs.length = method.params.length ∧ bindArguments method vs = widenAll 0 vs method.params := by
  have hlength : vs.length = method.params.length := by
    rw [(Arguments.read_of_coerced hvs).1, Arguments.length_entries hvalid, hcount]
  exact ⟨hlength, if_pos hlength⟩

/-- A call takes a step. -/
theorem invoke_zero {limit : ℕ} {bound : List Value} (hmethod : p.method? h = some method)
    (hlength : bound.length = method.params.length) (hlimit : 0 < limit) :
    Machine.invoke p limit 0 h bound = none := by
  have hroom : ¬limit ≤ Machine.depth [] := Nat.not_le.2 hlimit
  rw [Machine.invoke, Machine.start, hmethod]
  dsimp only
  rw [if_pos hlength, Machine.enter, if_neg hroom, hmethod]
  rfl

theorem reported_or_called (t' : Template) (hvalid : validate body a = .ok ())
    (hresolves : Builtin.Resolves t body p h method) (hcount : a.count = method.params.length) :
    (∃ i n f, a.Reported method.params i f ∧ a.Label i n ∧ ∀ limit steps c,
      (builtin t' limit steps).outcome t body a c = some (.error (.coercion ⟨i, n, f⟩), c)) ∨
    (¬a.Wrong method.params ∧ ∃ bound, a.Widened method.params bound ∧ ∀ limit steps c,
      (builtin t' limit steps).outcome t body a c =
        (Machine.invoke p limit steps h bound).map (ending c)) := by
  cases hvs : coerced a with
  | error e =>
      obtain ⟨hfirst, hname⟩ := Arguments.firstFailure_of_coerced hvs
      obtain ⟨text, r, u, hentry, -⟩ := hfirst.here
      have hlabel := Arguments.label_nameAt? hvalid hentry
      rw [← hname] at hlabel
      exact .inl ⟨_, _, _, .unreadable hfirst, hlabel,
        fun limit steps c => outcome_of_unreadable hvalid hresolves hcount hvs⟩
  | ok vs =>
      obtain ⟨hlength, hbind⟩ := bindArguments_eq hvalid hcount hvs
      have hread := Arguments.not_unreadable_of_coerced hvs
      cases hwiden : widenAll 0 vs method.params with
      | error failure =>
          rw [hwiden] at hbind
          obtain ⟨i, d, found, rfl, hfirst⟩ := Arguments.firstFailure_of_widenAll hvs hwiden
          obtain ⟨text, r, v, d', hentry, -⟩ := hfirst.here
          exact .inl ⟨_, _, _, .misfit hread hfirst, Arguments.label_nameAt? hvalid hentry,
            fun limit steps c => outcome_of_misfit hvalid hresolves hcount hvs hbind⟩
      | ok bound =>
          rw [hwiden] at hbind
          obtain ⟨hfit, hwidened⟩ := Arguments.widened_of_widenAll hvs hwiden hlength
          refine .inr ⟨?_, bound, hwidened,
            fun limit steps c => outcome_of_bound hvalid hresolves hcount hvs hbind⟩
          rintro (⟨i, f, hf⟩ | ⟨i, f, hf⟩)
          · exact hread i f hf
          · exact hfit i f hf

/-- The arguments of a scriptlet whose entry point has been found are checked one after the other:
first all texts, then all values, and then the method is called. -/
theorem checksArguments_of_resolves {t' : Template} (hvalid : validate body a = .ok ())
    (hresolves : Builtin.Resolves t body p h method) (hcount : a.count = method.params.length) :
    ChecksArguments a method (fun limit steps bound => Machine.invoke p limit steps h bound)
      (fun limit steps c => (builtin t' limit steps).outcome t body a c) := by
  have hbinds {values : List Value} {name : String} {expected found : ℕ}
      (hvs : coerced a = .ok values) :
      bindArguments method values ≠ .error (.arity name expected found) := by
    intro harity
    rw [(bindArguments_eq hvalid hcount hvs).2] at harity
    obtain ⟨i, d, found', heq, -⟩ := Arguments.firstFailure_of_widenAll hvs harity
    cases heq
  obtain ⟨i, n, f, hreported, hlabel, hrun⟩ | ⟨hright, bound, hwidened, hrun⟩ :=
    reported_or_called t' hvalid hresolves hcount
  · constructor
    case fails_iff =>
      intro limit steps c
      exact ⟨fun _ => hreported.wrong, fun _ => ⟨_, _, hrun limit steps c⟩⟩
    case reports =>
      intro j g hg
      obtain ⟨rfl, rfl⟩ := hreported.unique hg
      exact ⟨n, hlabel, hrun⟩
    case reported =>
      intro limit steps c c' e he
      rw [hrun] at he
      cases he
      exact ⟨hreported, hlabel, rfl⟩
    case calls =>
      intro hright
      exact absurd hreported.wrong hright
    case binds => exact hbinds
    case resolves =>
      intro limit steps c c' name expected found heq
      rw [hrun] at heq
      cases heq
  · have hraised {limit steps : ℕ} {c c' : Console} {e : EngineError}
        (he : (builtin t' limit steps).outcome t body a c = some (.error e, c')) :
        ∃ k message, e = .invocation k message := by
      rw [hrun] at he
      obtain ⟨o, -, ho⟩ := Option.map_eq_some_iff.1 he
      exact eq_invocation_of_ending ho
    constructor
    case fails_iff =>
      intro limit steps c
      refine ⟨?_, fun hwrong => absurd hwrong hright⟩
      rintro ⟨e, c', he⟩
      obtain ⟨k, message, heq⟩ := hraised he
      cases heq
    case reports =>
      intro j g hg
      exact absurd hg.wrong hright
    case reported =>
      intro limit steps c c' e he
      obtain ⟨k, message, heq⟩ := hraised he
      cases heq
    case calls =>
      intro _
      refine ⟨bound, hwidened, hrun, fun limit c hlimit => ?_⟩
      rw [hrun, invoke_zero hresolves.method hwidened.length hlimit]
      rfl
    case binds => exact hbinds
    case resolves =>
      intro limit steps c c' name expected found he
      obtain ⟨k, message, heq⟩ := hraised he
      cases heq

end

/-- A method that raises a number by a byte. -/
def raiseBody : String :=
  "public static int Raise(int n, byte by) \x7b return n + by; \x7d"

def raiseArguments : Arguments :=
  .ofLists ["n", " by "] ["12", "300"] [.int, .int]

theorem eq_ok_of_toOption {ε α : Type} {x : Except ε α} {r : α} (h : x.toOption = some r) :
    x = .ok r := by
  cases x with
  | error e => cases h
  | ok r' =>
      obtain rfl := Option.some.inj h
      rfl

theorem exists_resolves_raiseBody : ∃ p h method,
    Builtin.Resolves .standard raiseBody p h method ∧ method.params = [.int, .byte] := by
  have hparams : ((Builtin.compileUnit (Template.standard.wrap raiseBody)).toOption.bind
      fun image => (Builtin.loadImage image).toOption.bind fun p =>
        (p.entry Template.standard.container).toOption.bind fun h =>
          (p.method? h).map Code.Method.params) = some [.int, .byte] := by
    decide +kernel
  obtain ⟨image, himage, hparams⟩ := Option.bind_eq_some_iff.1 hparams
  obtain ⟨p, hp, hparams⟩ := Option.bind_eq_some_iff.1 hparams
  obtain ⟨h, hh, hparams⟩ := Option.bind_eq_some_iff.1 hparams
  obtain ⟨method, hmethod, hparams⟩ := Option.map_eq_some_iff.1 hparams
  exact ⟨p, h, method, ⟨⟨image, eq_ok_of_toOption himage, eq_ok_of_toOption hp⟩,
    eq_ok_of_toOption hh, hmethod⟩, hparams⟩

/-- The second argument is read as a number, which does not fit a parameter of the type byte. -/
theorem checksArguments_raise : ∃ p h method, Builtin.Resolves .standard raiseBody p h method ∧
    raiseArguments.Misfit method.params 1 (.mismatch .byte "int") ∧
      ChecksArguments raiseArguments method
        (fun limit steps bound => Machine.invoke p limit steps h bound)
        (fun limit steps c =>
          (builtin .standard limit steps).outcome .standard raiseBody raiseArguments c) := by
  obtain ⟨p, h, method, hresolves, hparams⟩ := exists_resolves_raiseBody
  have hvalid : validate raiseBody raiseArguments = .ok () := by decide
  have hread : readValue "300" .int = .ok (.int 300) := by decide
  have hcount : raiseArguments.count = method.params.length := by
    rw [hparams]
    rfl
  refine ⟨p, h, method, hresolves, ?_, checksArguments_of_resolves hvalid hresolves hcount⟩
  rw [hparams]
  exact ⟨"300", .int, .int 300, .byte, rfl, hread, rfl, by decide, rfl⟩

end Engine

end Scriptlet
