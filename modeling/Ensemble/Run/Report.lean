import Ensemble.Run.Execution
import Ensemble.Run.World

/-!
# Run reports

The states of a run, what is known of it when it is over, and a summary of it. A run is compiled,
then it runs, then it has completed or failed. `RunState.canMoveTo` says which state may follow
which; other moves are refused and change nothing.
-/

namespace Ensemble

/-! ## States -/

inductive RunState
  | idle
  | compiling
  | running
  | completed
  | failed (reason : String)
deriving DecidableEq, Repr

namespace RunState

def isTerminal : RunState → Bool
  | .completed => true
  | .failed _ => true
  | _ => false

def canMoveTo : RunState → RunState → Bool
  | .idle, .compiling => true
  | .compiling, .running => true
  | .compiling, .failed _ => true
  | .running, .completed => true
  | .running, .failed _ => true
  | _, _ => false

/-- The state after a move, and whether the move was made. -/
def move (s next : RunState) : RunState × Bool :=
  if s.canMoveTo next then (next, true) else (s, false)

/-- The state after a move. -/
def advance (s next : RunState) : RunState := (s.move next).1

def name : RunState → String
  | .idle => "idle"
  | .compiling => "compiling"
  | .running => "running"
  | .completed => "completed"
  | .failed _ => "failed"

def toJson (s : RunState) : Json :=
  .object (("state", .string s.name) :: match s with
    | .failed reason => [("reason", .string reason)]
    | _ => [])

end RunState

/-! ## Reports -/

structure RunReport where
  flow : String
  state : RunState
  result : Option Json
  error : Option FlowError
  trace : List Chunk
  counts : RunCounts
  log : RunLog
  session : Option Session
deriving Repr

namespace RunReport

def isSuccess (r : RunReport) : Bool := r.state == .completed

def finalChunk? (r : RunReport) : Option Chunk := r.trace.getLast?

/-- The result of the run, or its error. -/
def outcome (r : RunReport) : Except FlowError Json :=
  match r.error with
  | some e => .error e
  | none => .ok (r.result.getD .null)

end RunReport

structure RunSummary where
  traceId : String
  session : String
  flow : String
  succeeded : Bool
  steps : StepSummary
  chunks : ChunkCounts
  /-- The usage of all answers in the trace. -/
  usage : Tokens
  error : Option String
deriving Repr

def RunSummary.ofReport (r : RunReport) : RunSummary :=
  { traceId := r.log.traceId, session := r.log.session, flow := r.flow, succeeded := r.isSuccess
    steps := r.log.summary, chunks := .ofTrace r.trace
    usage := .sum (r.trace.filterMap Chunk.usage?), error := r.error.map FlowError.message }

end Ensemble
