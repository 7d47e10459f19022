import Ensemble.Agent.Model
import Ensemble.Process.Script
import Ensemble.Trace.Chunk
import Ensemble.Usage.Session
import Ensemble.Usage.Stat

/-!
# Acts of a run

Everything that a run asks of the world around it: entries in its log, chunks in its trace, models
and tools, and the stores that keep account of usage.
-/

namespace Ensemble

inductive Act
  /-- The log notes that a step starts, has succeeded, has failed, or is left out. -/
  | logStart (step : String)
  | logSuccess (step : String)
  | logFailure (step error : String)
  | logSkip (step : String)
  /-- The log notes the error that ends the run. -/
  | logError (error : String)
  /-- The trace gets a chunk, with the time of the moment. -/
  | emitStart (agent step : String) (input : Json)
  | emitFinish (agent model step : String) (messages : List Message) (usage : Tokens)
      (finishReason : String)
  | emitFinal (flow : String) (result : Json)
  | emitError (message : String)
  /-- A model is asked. -/
  | send (request : ModelRequest)
  /-- A tool is used. -/
  | invoke (tool : Tool) (args : Json) (context : ToolContext)
  /-- The usage of an answer is added to its session, to the statistics, and to the bill. -/
  | recordSession (session agent : String) (delta : Tokens)
  | aggregate (stat : Usage.Stat)
  | bill (usage : SessionUsage) (stat : Usage.Stat)
  /-- A call of an agent has succeeded with so many answers and uses of tools. -/
  | count (modelCalls toolCalls : Nat)
  /-- The session is finished. -/
  | finalize (session : String)
  /-- The stream of the trace ends. -/
  | close

namespace Act

/-- What the world replies. -/
def Reply : Act → Type
  | .send _ => PendingModel
  | .invoke .. => Except ToolError Json
  | .recordSession .. => Except String SessionUsage
  | _ => Unit

/-- Whether an act writes to the trace. -/
def writes : Act → Bool
  | .emitStart .. => true
  | .emitFinish .. => true
  | .emitFinal .. => true
  | .emitError _ => true
  | _ => false

end Act

/-- Programs that perform the acts of a run. -/
abbrev RunProg := Prog Act Act.Reply

/-- Scripts of the tasks of a run. -/
abbrev RunScript := Script Act Act.Reply

namespace RunProg

/-- An act whose reply, if it has one, is not used. -/
def note (a : Act) : RunProg Unit := .act a fun _ => .ret ()

def send (request : ModelRequest) : RunProg PendingModel := .act (.send request) .ret

def invoke (tool : Tool) (args : Json) (context : ToolContext) :
    RunProg (Except ToolError Json) := .act (.invoke tool args context) .ret

def recordSession (session agent : String) (delta : Tokens) :
    RunProg (Except String SessionUsage) := .act (.recordSession session agent delta) .ret

end RunProg

end Ensemble
