import Ensemble.Clock

/-!
# Run logs

The log of a run has an entry for each step that has started or has been left out, and the errors
in the order in which they came up.
-/

namespace Ensemble

inductive StepStatus
  | running
  | success
  | failed
  | skipped
deriving DecidableEq, Repr

structure StepLog where
  step : String
  status : StepStatus
  error : Option String
deriving DecidableEq, Repr

/-- Whether the entry says when the step ended. -/
def StepLog.hasEnded (l : StepLog) : Bool := l.status ≠ .running

/-- How many entries have each status. -/
structure StepSummary where
  total : Nat
  success : Nat
  failed : Nat
  skipped : Nat
  running : Nat
deriving DecidableEq, Repr

structure RunLog where
  traceId : String
  session : String
  agent : String
  flow : String
  clock : Clock
  ok : Bool
  errors : List String
  steps : List StepLog
deriving Repr

namespace RunLog

def start (traceId session agent : String) (clock : Clock) : RunLog :=
  { traceId, session, agent, flow := "", clock, ok := true, errors := [], steps := [] }

def startStep (step : String) (l : RunLog) : RunLog :=
  { l with steps := l.steps ++ [{ step, status := .running, error := none }] }

/-- Changes the first running entry of a step in a list. -/
def endFirst (step : String) (status : StepStatus) (error : Option String) :
    List StepLog → List StepLog
  | [] => []
  | e :: rest =>
    if e.step = step ∧ e.status = .running then { e with status, error } :: rest
    else e :: endFirst step status error rest

/-- Changes the latest running entry of a step. -/
def endLatest (step : String) (status : StepStatus) (error : Option String) (l : RunLog) : RunLog :=
  { l with steps := (endFirst step status error l.steps.reverse).reverse }

def endSuccess (step : String) (l : RunLog) : RunLog := l.endLatest step .success none

/-- A failure is noted even if the step has no running entry. -/
def endFailed (step error : String) (l : RunLog) : RunLog :=
  let l := l.endLatest step .failed (some error)
  { l with ok := false, errors := l.errors ++ [s!"[{l.traceId}] {step}: {error}"] }

/-- Adds an entry for a step that has been left out. -/
def skip (step : String) (l : RunLog) : RunLog :=
  { l with steps := l.steps ++ [{ step, status := .skipped, error := none }] }

/-- Notes the error that ends the run. -/
def fail (error : String) (l : RunLog) : RunLog :=
  { l with ok := false, errors := l.errors ++ [error] }

def summary (l : RunLog) : StepSummary :=
  let count (s : StepStatus) : Nat := l.steps.countP fun e => e.status == s
  { total := l.steps.length, success := count .success, failed := count .failed
    skipped := count .skipped, running := count .running }

end RunLog

end Ensemble
