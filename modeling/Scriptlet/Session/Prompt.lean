import Scriptlet.Engine
import Scriptlet.Engine.Builtin

namespace Scriptlet

/-!
# Prompt sessions

A session asks for a scriptlet on one line and for the value of each of its parameters, runs it, and
reports the result or the error.
-/

/-- Where lines are read and written. -/
structure Terminal (m : Type → Type) where
  /-- The next line without its end; empty behind the last one. -/
  readLine : m String
  writeLine : String → m Unit

namespace Session

variable {m : Type → Type} [Monad m]

def askValue (t : Terminal m) (p : Parameter) : m String := do
  t.writeLine ("Enter parameter value for parameter: " ++ p.text)
  t.readLine

def report : Except EngineError Value → String
  | .ok v => "Result: " ++ v.text
  | .error e => "Error: " ++ e.message

/-- One round of asking, running and reporting. -/
def run (t : Terminal m) (execute : String → Arguments → m (Except EngineError Value)) :
    m Unit := do
  t.writeLine "Enter C# method body:"
  let body ← t.readLine
  let parameters := Header.parameters body.toList
  let values ← parameters.mapM (askValue t)
  t.writeLine (report (← execute body (.forHeader parameters values)))

end Session

/-- A line without the line ends and carriage returns behind it. -/
def withoutLineEnd (line : List Char) : List Char :=
  (line.reverse.dropWhile fun c => c == '\n' || c == '\r').reverse

/-- The first line of a text, and the text behind it. -/
def splitLine (text : List Char) : List Char × List Char :=
  let (line, rest) := text.span (· != '\n')
  (withoutLineEnd line, rest.drop 1)

/-- What a session has yet to read and what it has written. -/
structure Transcript where
  input : List Char
  written : String

namespace Transcript

/-- The terminal of a session that reads a given text. -/
def terminal : Terminal (StateT Transcript Work) where
  readLine := modifyGet fun t =>
    let (line, rest) := splitLine t.input
    (String.ofList line, { t with input := rest })
  writeLine line := modify fun t => { t with written := t.written ++ line ++ "\n" }

/-- All that a session writes whose input is a given text. -/
def session (e : Engine Work) (input : String) : Work String := do
  let run := Session.run terminal fun body a => (e.execute body a).run
  let (_, t) ← run.run ⟨input.toList, ""⟩
  return t.written

end Transcript

end Scriptlet
