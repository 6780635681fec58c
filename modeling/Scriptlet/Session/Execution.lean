import Scriptlet.Engine

namespace Scriptlet

/-!
# Executions

The running of a scriptlet apart from who waits for it. Its result can be taken once. A worker that
is gone without leaving a result has been lost.
-/

/-- What an execution runs. -/
structure Job where
  body : String
  arguments : Arguments

/-- Why an execution has no value. -/
inductive ExecutionError where
  | engine (e : EngineError)
  | workerLost
  deriving DecidableEq

def ExecutionError.message : ExecutionError → String
  | engine e => e.message
  | workerLost => "execution worker exited without a result"

abbrev ExecutionResult :=
  Except ExecutionError Value

inductive Execution where
  | running (j : Job)
  | finished (r : ExecutionResult)
  /-- Nothing runs, and no result is left. -/
  | gone

namespace Execution

/-- The worker leaves the outcome of its job. -/
def finish (outcome : Job → Except EngineError Value) : Execution → Execution
  | running j => finished ((outcome j).mapError .engine)
  | e => e

/-- The worker dies. -/
def lose : Execution → Execution
  | running _ => gone
  | e => e

/-- The result, unless the worker is still running, and what is left of the execution. -/
def take : Execution → Option ExecutionResult × Execution
  | running j => (none, running j)
  | finished r => (some r, gone)
  | gone => (some (.error .workerLost), gone)

end Execution

/-- The job of an execution that still runs. -/
def Execution.job? : Execution → Option Job
  | running j => some j
  | _ => none

end Scriptlet
