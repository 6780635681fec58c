import Scriptlet.Session.Prompt

namespace Scriptlet

/-!
# The command line

One prompt session on the standard streams. What a scriptlet prints comes before its result.
-/

namespace CommandLine

/-- More steps than any run takes in practice. -/
def steps : Nat := 1 <<< 64

def terminal : Terminal IO where
  readLine := do
    let line ← (← IO.getStdin).getLine
    return String.ofList (withoutLineEnd line.toList)
  writeLine line := do
    let output ← IO.getStdout
    output.putStrLn line
    output.flush

def execute (body : String) (a : Arguments) : IO (Except EngineError Value) := do
  let engine := Engine.builtin .standard Machine.defaultDepth steps
  match ((engine.execute body a).run).run .empty with
  | none => throw (IO.userError "the scriptlet does not end")
  | some (result, console) =>
      IO.print console.output
      return result

end CommandLine

end Scriptlet

open Scriptlet in
/-- Runs a session; a failure of the streams ends it. -/
def main : IO UInt32 := do
  try
    Session.run CommandLine.terminal CommandLine.execute
    return 0
  catch e =>
    IO.eprintln ("error: " ++ toString e)
    return 1
