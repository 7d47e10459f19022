import Ensemble.Run.Report

/-!
# Log events

What a logger writes about a run: a level, a message and fields, all of them texts. Every event
names the trace that it belongs to.
-/

namespace Ensemble

inductive Level
  | debug
  | info
  | warn
  | error
deriving DecidableEq, Repr

def Level.name : Level → String
  | .debug => "DEBUG"
  | .info => "INFO"
  | .warn => "WARN"
  | .error => "ERROR"

structure Event where
  level : Level
  message : String
  fields : List (String × String)
deriving DecidableEq, Repr

namespace Event

/-- A message of a logger that is bound to a trace. -/
def ofMessage (level : Level) (traceId message : String) : Event :=
  { level, message, fields := [("trace_id", traceId)] }

/-- An error that a flow ended with or met on its way. -/
def ofError (traceId error : String) : Event := ofMessage .error traceId s!"Flow error: {error}"

/-- The summary of a run, the totals of its session, and its error. -/
def ofReport (r : RunReport) : List Event :=
  let s := RunSummary.ofReport r
  let summary : Event :=
    { level := .info, message := "Flow run summary"
      fields := [("trace_id", s.traceId), ("session_id", s.session), ("flow", s.flow),
        ("succeeded", toString s.succeeded), ("steps", toString s.steps.total),
        ("success", toString s.steps.success), ("failed", toString s.steps.failed),
        ("skipped", toString s.steps.skipped), ("chunks", toString s.chunks.total),
        ("step_finish", toString s.chunks.stepFinish),
        ("prompt_tokens", toString s.usage.prompt.toNat),
        ("completion_tokens", toString s.usage.completion.toNat)] }
  let totals := r.session.toList.map fun session =>
    { level := .debug, message := "Session totals"
      fields := [("trace_id", s.traceId), ("session_id", session.id),
        ("session_tokens", toString session.usage.total.toNat),
        ("finalized", toString session.finalizedAt.isSome)] }
  let errors := s.error.toList.map fun error =>
    { ofError s.traceId error with fields := [("trace_id", s.traceId), ("flow", s.flow)] }
  summary :: (totals ++ errors)

/-- The counts of a log and its errors. -/
def ofLog (l : RunLog) : List Event :=
  let s := l.summary
  { level := .info, message := "Execution context summary"
    fields := [("trace_id", l.traceId), ("flow", l.flow), ("total_steps", toString s.total),
      ("success", toString s.success), ("failed", toString s.failed),
      ("skipped", toString s.skipped), ("errors", toString l.errors.length)] }
    :: l.errors.map (ofError l.traceId)

/-- An entry of a log. -/
def ofStep (traceId : String) (e : StepLog) : Event :=
  let fields := [("trace_id", traceId), ("step_name", e.step)]
  match e.status with
  | .success => { level := .info, message := "Step completed successfully", fields }
  | .failed =>
    { level := .error, message := "Step failed"
      fields := fields ++ [("error", e.error.getD "Unknown error")] }
  | .skipped => { level := .warn, message := "Step skipped", fields }
  | .running => { level := .warn, message := "Step still running", fields }

/-- The entries of a log. -/
def ofSteps (l : RunLog) : List Event := l.steps.map (ofStep l.traceId)

end Event

end Ensemble
