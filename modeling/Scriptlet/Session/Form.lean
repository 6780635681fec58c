import Scriptlet.Session.Execution

namespace Scriptlet

/-!
# Forms

A form holds the text of a scriptlet, a field for the value of each parameter, a button that runs
the scriptlet, and the result or the error of the last run. While a run is going on, the form takes
no input.
-/

structure Form where
  body : String
  parameters : List Parameter
  /-- The texts of the fields, one for each parameter. -/
  values : List String
  /-- Whether the button can be pressed while nothing runs. -/
  enabled : Bool
  pending : Option Execution
  resultText : Option String
  errorText : Option String

namespace Form

def empty : Form :=
  ⟨"", [], [], false, none, none, none⟩

def busy (f : Form) : Bool :=
  f.pending.isSome

def canExecute (f : Form) : Bool :=
  f.enabled && !f.busy

/-- Replaces the text, and tells whether it could be. -/
def setBody (f : Form) (text : String) : Form × Bool :=
  if f.busy then (f, false) else ({ f with body := text }, true)

/-- What follows when the text loses the focus: the fields are those of its header, and the button
is enabled unless the text is blank. Fields of the same parameters keep their values. -/
def leaveBody (f : Form) : Form :=
  if f.busy then f
  else if Text.isBlankText f.body.toList then
    { f with enabled := false, parameters := [], values := [] }
  else
    let parameters := Header.parameters f.body.toList
    if parameters = f.parameters then { f with enabled := true }
    else { f with enabled := true, parameters, values := parameters.map fun _ => "" }

/-- Replaces the value of a field, and tells whether it could be. -/
def setValue (f : Form) (index : Nat) (text : String) : Form × Bool :=
  if f.busy then (f, false)
  else if index < f.values.length then ({ f with values := f.values.set index text }, true)
  else (f, false)

/-- What the button runs. -/
def job (f : Form) : Job :=
  ⟨f.body, .forHeader f.parameters f.values⟩

/-- Presses the button, and tells whether a run has begun. -/
def execute (f : Form) : Form × Bool :=
  if f.canExecute then
    ({ f with pending := some (.running f.job), resultText := none, errorText := none }, true)
  else (f, false)

/-- What happens to the run that is going on. -/
def advance (f : Form) (change : Execution → Execution) : Form :=
  { f with pending := f.pending.map change }

/-- The form with a result to show. -/
def withResult (f : Form) : ExecutionResult → Form
  | .ok v => { f with pending := none, resultText := some v.text }
  | .error e => { f with pending := none, errorText := some e.message }

/-- Shows the result of the run, and tells whether there is one. -/
def collect (f : Form) : Form × Bool :=
  match f.pending.bind fun e => e.take.1 with
  | some r => (f.withResult r, true)
  | none => (f, false)

end Form

end Scriptlet
