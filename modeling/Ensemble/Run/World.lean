import Ensemble.Process.Schedule
import Ensemble.Run.Act
import Ensemble.Run.Log
import Ensemble.Store.Services
import Ensemble.Trace.Sink

/-!
# The world of a run

What the acts of a run do. Some things outlive a run, the `Environment`: the services, the models,
the requests that they have got, the uses of tools, and the time. Others belong to one run: its
trace, its log and its counts.
-/

namespace Ensemble

/-- How much a run has done: calls of agents that succeeded, with their answers and uses of tools. -/
structure RunCounts where
  agentCalls : Nat
  modelCalls : Nat
  toolCalls : Nat
deriving DecidableEq, Repr

def RunCounts.zero : RunCounts := { agentCalls := 0, modelCalls := 0, toolCalls := 0 }

/-- What outlives a run, with models whose state is an `M`. -/
structure Environment (M : Type) where
  services : Services
  model : M
  /-- The requests that models have got, with the milliseconds at which they came. -/
  requests : List (Nat × ModelRequest)
  /-- What tools other than the one that saves results have been used for. -/
  invocations : List Invocation
  /-- Milliseconds on the clock that pauses are measured by. -/
  time : Nat
  /-- What the wall clock shows. -/
  now : Instant

structure World (M : Type) where
  environment : Environment M
  sink : Sink
  log : RunLog
  counts : RunCounts
  /-- The session after it was finished. -/
  finalized : Option Session

namespace World

variable {M : Type}

def start (environment : Environment M) (sink : Sink) (log : RunLog) : World M :=
  { environment, sink, log, counts := .zero, finalized := none }

def onLog (f : RunLog → RunLog) (w : World M) : World M := { w with log := f w.log }

def emit (build : Instant → Chunk) (w : World M) : World M :=
  { w with sink := w.sink.writeAt w.environment.now build }

/-- Uses the services. -/
def serve {α : Type} (f : Services → α × Services) (w : World M) : α × World M :=
  let (a, services) := f w.environment.services
  (a, { w with environment := { w.environment with services } })

def count (modelCalls toolCalls : Nat) (w : World M) : World M :=
  { w with
    counts :=
      { agentCalls := w.counts.agentCalls + 1
        modelCalls := w.counts.modelCalls + modelCalls
        toolCalls := w.counts.toolCalls + toolCalls } }

/-- Asks a model, and notes the request. -/
def send [LanguageModel M] (r : ModelRequest) (w : World M) : PendingModel × World M :=
  let e := w.environment
  let (pending, model) := LanguageModel.send r e.model
  (pending, { w with environment := { e with model, requests := e.requests ++ [(e.time, r)] } })

/-- Uses a tool, and notes the use for later ones. -/
def invoke (tool : Tool) (args : Json) (context : ToolContext) (w : World M) :
    Except ToolError Json × World M :=
  match tool with
  | .custom spec run =>
    let e := w.environment
    let invocations := e.invocations ++ [{ tool := spec.name, args, context }]
    (run e.invocations args context, { w with environment := { e with invocations } })
  | .saveResults usual =>
    match Tool.contentToSave args with
    | .error e => (.error e, w)
    | .ok content =>
      let format := Tool.formatToSave usual args
      let now := w.environment.now
      let record : ResultRecord :=
        { agent := context.agentId, session := context.sessionId, content, format
          createdAt := now, updatedAt := now, finalizedAt := some now }
      match w.serve (Services.save record) with
      | (.ok (), w) => (.ok (Tool.saved format), w)
      | (.error message, w) => (.error (.execution message), w)

/-- Records usage at the time of the moment. -/
def recordSession (session agent : String) (delta : Tokens) (w : World M) :
    Except String SessionUsage × World M :=
  let usage : SessionUsage := { session, agent, delta, time := w.environment.now }
  match w.serve (Services.recordSession usage) with
  | (.ok _, w) => (.ok usage, w)
  | (.error message, w) => (.error message, w)

/-- Finishes the session, if it can be done. -/
def finalize (session : String) (w : World M) : World M :=
  match w.serve (Services.finalize session w.environment.now) with
  | (.ok finalized, w) => { w with finalized }
  | (.error _, w) => w

/-- What an act does. -/
def perform [LanguageModel M] : (a : Act) → World M → a.Reply × World M
  | .logStart step, w => ((), w.onLog (.startStep step))
  | .logSuccess step, w => ((), w.onLog (.endSuccess step))
  | .logFailure step error, w => ((), w.onLog (.endFailed step error))
  | .logSkip step, w => ((), w.onLog (.skip step))
  | .logError error, w => ((), w.onLog (.fail error))
  | .emitStart agent step input, w => ((), w.emit (.flowStart agent step input))
  | .emitFinish agent model step messages usage reason, w =>
    ((), w.emit (.stepFinish agent model step messages usage reason))
  | .emitFinal flow result, w => ((), w.emit (.finalResponse flow result))
  | .emitError message, w => ((), { w with sink := w.sink.write (.error message) })
  | .send r, w => w.send r
  | .invoke tool args context, w => w.invoke tool args context
  | .recordSession session agent delta, w => w.recordSession session agent delta
  | .aggregate stat, w => ((), (w.serve (Services.aggregate stat)).2)
  | .bill usage stat, w => ((), (w.serve (Services.bill usage stat)).2)
  | .count modelCalls toolCalls, w => ((), w.count modelCalls toolCalls)
  | .finalize session, w => ((), w.finalize session)
  | .close, w => ((), { w with sink := w.sink.close })

/-- The world as schedules see it. -/
def machine [LanguageModel M] : Machine Act Act.Reply (World M) :=
  { perform
    writes := Act.writes
    hasRoom := fun w => w.sink.hasRoom
    hasUnread := fun w => !w.sink.waiting.isEmpty
    read := fun w => { w with sink := w.sink.takeAll }
    setTime := fun time w => { w with environment := { w.environment with time } } }

/-- How many moves a script may take. -/
def maxMoves : Nat := 1000000000000

/-- Runs a script to its end: the result, unless the script crashes, and the world after it. -/
def run [LanguageModel M] {β : Type} (config : FanoutConfig) (script : Script Act Act.Reply β)
    (w : World M) : Option (Except FlowError β) × World M :=
  match (Schedule.start script w w.environment.time).run? config machine maxMoves with
  | none => (none, w)
  | some s =>
    match s.ending? with
    | some (.completed value) => (some (.ok value), s.world)
    | some (.failed e) => (some (.error e), s.world)
    | _ => (none, s.world)

end World

end Ensemble
