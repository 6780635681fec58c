import Scriptlet.Arguments
import Scriptlet.Machine.Program

namespace Scriptlet

/-!
# Engine errors

The running of a scriptlet fails at one of its stages.
-/

/-- What is wrong with the inputs before anything is compiled. -/
inductive ValidationError where
  | missingBody
  | lengthMismatch
  | blankNames
  | blankValues
  deriving DecidableEq

def ValidationError.message : ValidationError → String
  | missingBody => "missing method body"
  | lengthMismatch => "mismatch between parameter names-values-types"
  | blankNames => "some parameter names are empty"
  | blankValues => "some parameter values are empty"

/-- Why there is no method to call. -/
inductive ResolutionError where
  | load (message : String)
  | notFound (e : Machine.EntryError)
  | arity (method : String) (expected found : Nat)
  deriving DecidableEq

def ResolutionError.message : ResolutionError → String
  | load message => "module failed to load: " ++ message
  | notFound e => e.message
  | arity method expected found =>
      "method '" ++ method ++ "' takes " ++ expected.repr ++ " parameters but " ++ found.repr ++
        " were supplied"

inductive EngineError where
  | validation (e : ValidationError)
  /-- The diagnostics as they are shown. -/
  | compile (diagnostics : List String)
  | resolution (e : ResolutionError)
  | coercion (e : CoercionError)
  /-- The method raised an exception. -/
  | invocation (c : ExceptionClass) (message : String)
  deriving DecidableEq

def EngineError.message : EngineError → String
  | validation e => e.message
  | compile diagnostics => "compilation failed:\n" ++ "\n".intercalate diagnostics
  | resolution e => e.message
  | coercion e => e.message
  | invocation c message => c.fullName ++ ": " ++ message

end Scriptlet
