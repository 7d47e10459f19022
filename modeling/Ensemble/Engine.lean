import Ensemble.Compile
import Ensemble.Input.Schema
import Ensemble.Request.Basic
import Ensemble.Response
import Ensemble.Run.Report

/-!
# The engine

An engine answers requests. First a request is prepared: the quota is checked, the definition is
found, the input is checked and resolved, the flow is compiled and the agents are built. If any of
this fails nothing has been done yet, and the failure is the answer. A prepared request is run, and
its trace always ends with the result or the failure.
-/

namespace Ensemble

structure Engine where
  config : Config
  /-- The definitions by their identifiers. -/
  agents : List (String × MasterAgent)
  tools : ToolLibrary
  extractor : Option Extractor
  /-- The identifiers for the names of tools. -/
  identifier : Nat → String
  /-- The identifier of the trace. -/
  traceId : String

/-- A request that is ready to run. -/
structure Prepared where
  request : Request
  master : MasterAgent
  plan : Plan
  state : RunState
  registry : Registry
  log : RunLog

namespace Engine

variable {M : Type}

def accountant (e : Engine) (services : Services) (r : Request) : Accountant :=
  { event := e.config.statsEvent, session := r.session, agent := r.agent, bills := services.bills }

/-- The definition that a request asks for. -/
def findAgent (e : Engine) (services : Services) (r : Request) : Except FlowError MasterAgent :=
  if services.faults.contains .findAgent then
    .error (.collaborator ServiceCall.findAgent.failure)
  else
    match e.agents.lookup r.agent with
    | some master => .ok master
    | none => .error (.invalid (.agentNotFound r.agent))

/-- Turns what is wrong with a request into an error of its run. -/
def orInvalid {α : Type} : Except Invalid α → Except FlowError α
  | .ok a => .ok a
  | .error e => .error (.invalid e)

/-- Checks and resolves the input of a request. -/
def resolve (e : Engine) (master : MasterAgent) (r : Request) :
    Except FlowError ResolvedInputs := do
  orInvalid (Input.validate master.inputs r.input)
  let extractor := if e.config.extractDocuments then e.extractor else none
  let inputs := Input.resolve extractor master.inputs r.input
  match inputs.errors with
  | error :: _ => if e.config.strictExtraction then throw (.extraction error) else return inputs
  | [] => return inputs

def registryContext (e : Engine) (services : Services) (master : MasterAgent) (r : Request) :
    RegistryContext :=
  { tools := e.tools
    accountant := e.accountant services r
    clock := r.clock
    agentId := r.agent
    sessionId := r.session
    resultFormat := master.resultFormat
    maxToolSteps := e.config.maxToolSteps
    timeout := e.config.stepTimeout
    identifier := e.identifier }

/-- Makes a request ready once the quota has been checked. -/
def prepareAllowed (e : Engine) (services : Services) (r : Request) :
    Except FlowError Prepared := do
  let master ← e.findAgent services r
  let inputs ← e.resolve master r
  let plan ← orInvalid (compile master r.flow inputs e.config.defaultInjection)
  orInvalid plan.validate
  let registry ←
    match Registry.build (e.registryContext services master r) master.agents with
    | .ok registry => pure registry
    | .error error => throw (.call error)
  let log := { RunLog.start e.traceId r.session r.agent r.clock with flow := plan.name }
  return { request := r, master, plan, state := RunState.idle.advance .compiling, registry, log }

/-- Makes a request ready: nothing if that crashes. -/
def prepare? (e : Engine) (environment : Environment M) (r : Request) :
    Option (Except FlowError Prepared) :=
  match environment.services.checkQuota? environment.now with
  | none => none
  | some (.error error) => some (.error error)
  | some (.ok ()) => some (e.prepareAllowed environment.services r)

/-! ## Running -/

/-- What is left to do when the root step has ended: the last chunk, the session and the stream. -/
def conclude (p : Prepared) (r : Except FlowError StepOutcome) : RunProg Unit := do
  match r with
  | .ok out => RunProg.note (.emitFinal p.plan.name out.value)
  | .error e =>
    RunProg.note (.emitError e.message)
    RunProg.note (.logError e.message)
  RunProg.note (.finalize p.request.session)
  RunProg.note .close

/-- All that a run does. -/
def script (p : Prepared) : RunScript StepOutcome :=
  (Execution.step p.registry p.plan.root []).andThen fun r => (conclude p r).andThen fun () => .ret r

/-- The state after a run. -/
def finalState (p : Prepared) (r : Except FlowError StepOutcome) : RunState :=
  let state := p.state.advance .running
  match r with
  | .ok _ => state.advance .completed
  | .error e => state.advance (.failed e.message)

def report (p : Prepared) (r : Except FlowError StepOutcome) (w : World M) : RunReport :=
  { flow := p.plan.name
    state := finalState p r
    result := match r with
      | .ok out => some out.value
      | .error _ => none
    error := match r with
      | .ok _ => none
      | .error e => some e
    trace := w.sink.chunks
    counts := w.counts
    log := w.log
    session := w.finalized }

/-- Runs a prepared request with a sink: the report, unless the run crashes. -/
def run [LanguageModel M] (e : Engine) (p : Prepared) (sink : Sink) (environment : Environment M) :
    Option RunReport × World M :=
  let (r, w) := (World.start environment sink p.log).run e.config.fanout (script p)
  (r.map fun r => report p r w, w)

/-- Prepares a request and runs it: nothing if one of them crashes. -/
def execute? [LanguageModel M] (e : Engine) (r : Request) (sink : Sink)
    (environment : Environment M) : Option (Except FlowError RunReport × Environment M) := do
  match ← e.prepare? environment r with
  | .error error => return (.error error, environment)
  | .ok p =>
    let (report, w) := e.run p sink environment
    return (.ok (← report), w.environment)

/-! ## Answering -/

/-- Prepares a request and streams its run: the lines that can be read. A run that crashes only
ends the stream. -/
def stream? [LanguageModel M] (e : Engine) (r : Request) (environment : Environment M) :
    Option (Except FlowError (List String) × Environment M) := do
  match ← e.prepare? environment r with
  | .error error => return (.error error, environment)
  | .ok p =>
    let w := (e.run p (.streaming e.config.streamBuffer) environment).2
    return (.ok ((w.sink.channel.map Channel.sent).getD []), w.environment)

/-- The answer with a report. -/
def respond (r : RunReport) : Response :=
  match r.error, r.finalChunk? with
  | some error, _ => .error error
  | none, some chunk => .final chunk
  | none, none => .json 200 .null

/-- Answers a request: the answer, and the lines of the stream if it is one. -/
def handle? [LanguageModel M] (e : Engine) (r : Request) (environment : Environment M) :
    Option (Response × Option (List String) × Environment M) := do
  if r.isStreaming then
    match ← e.stream? r environment with
    | (.error error, environment) => return (.error error, none, environment)
    | (.ok lines, environment) => return (.stream, some lines, environment)
  else
    match ← e.execute? r .buffered environment with
    | (.error error, environment) => return (.error error, none, environment)
    | (.ok report, environment) => return (respond report, none, environment)

end Engine

end Ensemble
