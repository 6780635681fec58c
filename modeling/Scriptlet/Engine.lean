import Scriptlet.Engine.EngineError
import Scriptlet.Engine.Toolchain

namespace Scriptlet

/-!
# The engine

A scriptlet runs in stages, and the first one that fails ends the run: the inputs are validated, the
wrapped scriptlet is compiled and loaded, the entry point of its class is looked up, the arguments
are read, and the method is called.
-/

structure Engine (m : Type → Type) where
  template : Template
  toolchain : Toolchain m

namespace Engine

/-- Whether there are texts and all of them are blank. -/
def allBlank (texts : List String) : Bool :=
  !texts.isEmpty && texts.all fun s => Text.isBlankText s.toList

/-- Arguments are either all absent or lists of one length. -/
def validateArguments (a : Arguments) : Except ValidationError Unit :=
  match a.names, a.values, a.types with
  | none, none, none => .ok ()
  | some names, some values, some types =>
      if names.length = values.length ∧ values.length = types.length then
        if allBlank names then .error .blankNames
        else if allBlank values then .error .blankValues
        else .ok ()
      else .error .lengthMismatch
  | _, _, _ => .error .lengthMismatch

def validate (body : String) (a : Arguments) : Except ValidationError Unit :=
  if Text.isBlankText body.toList then .error .missingBody else validateArguments a

/-- The values of arguments; without texts or types there are none. -/
def coerced (a : Arguments) : Except CoercionError (List Value) :=
  match a.values, a.types with
  | some values, some types => Arguments.coerce values types (a.names.getD [])
  | _, _ => .ok []

/-- What the failure of a call means for the caller. -/
def callError (names : List String) : CallFailure → EngineError
  | .raised c message => .invocation c message
  | .bind (.mismatch position expected found) =>
      .coercion ⟨position, Arguments.nameAt? names position, .mismatch expected found⟩
  | .bind (.arity method expected found) => .resolution (.arity method expected found)

variable {m : Type → Type} [Monad m]

/-- The entry point of a scriptlet in a template. -/
def resolve (tools : Toolchain m) (t : Template) (body : String) :
    ExceptT EngineError m (Entry m) := do
  let image ← (tools.compile (t.wrap body)).adapt .compile
  let loaded ← (tools.load image).adapt (.resolution ∘ .load)
  (loaded t.container).adapt (.resolution ∘ .notFound)

/-- Runs a scriptlet in a template. -/
def executeIn (e : Engine m) (t : Template) (body : String) (a : Arguments) :
    ExceptT EngineError m Value := do
  ExceptT.mk (pure ((validate body a).mapError .validation))
  let entry ← resolve e.toolchain t body
  if entry.params.length ≠ a.count then
    throw (.resolution (.arity entry.name entry.params.length a.count))
  let values ← ExceptT.mk (pure ((coerced a).mapError .coercion))
  (entry.invoke values).adapt (callError (a.names.getD []))

/-- Runs a scriptlet in the template of the engine. -/
def execute (e : Engine m) (body : String) (a : Arguments) : ExceptT EngineError m Value :=
  e.executeIn e.template body a

end Engine

end Scriptlet
