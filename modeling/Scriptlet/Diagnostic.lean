import Scriptlet.Decimal.General
import Scriptlet.Text.Position

namespace Scriptlet

/-!
# Diagnostics

What is reported about a source text: a code, a severity, a message and the place it is about.
-/

inductive Severity where
  | error
  | warning
  deriving DecidableEq

def Severity.text : Severity → String
  | error => "error"
  | warning => "warning"

/-- The thousands of a code name the phase that reports it. -/
structure ErrorCode where
  number : Nat
  deriving DecidableEq

namespace ErrorCode

def text (c : ErrorCode) : String :=
  "E" ++ paddedText 4 c.number

def isLexical (c : ErrorCode) : Bool :=
  c.number / 1000 == 0

def isSyntactic (c : ErrorCode) : Bool :=
  c.number / 1000 == 1

def isSemantic (c : ErrorCode) : Bool :=
  c.number / 1000 == 2

end ErrorCode

structure Diagnostic where
  code : ErrorCode
  severity : Severity
  message : String
  span : Text.Span
  deriving DecidableEq

namespace Diagnostic

def isError (d : Diagnostic) : Bool :=
  d.severity == .error

def text (d : Diagnostic) : String :=
  d.severity.text ++ " " ++ d.code.text ++ ": " ++ d.message

/-- The text of a diagnostic with a position in front. -/
def renderAt (p : Text.Position) (d : Diagnostic) : String :=
  p.text ++ ": " ++ d.text

/-- The text with the position where the diagnostic's span starts in a source. -/
def render (source : List Char) (d : Diagnostic) : String :=
  d.renderAt (Text.position source d.span.start)

def errorCount (ds : List Diagnostic) : Nat :=
  ds.countP isError

def hasErrors (ds : List Diagnostic) : Bool :=
  ds.any isError

end Diagnostic

end Scriptlet
