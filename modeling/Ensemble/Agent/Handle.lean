import Ensemble.Run.Act

/-!
# Calling agents

A call of an agent is a conversation with its model. The model is asked with the message; if it asks
for tools, they are used one after the other and it is asked again with their results, up to a
limit. Whatever an answer has cost is put on record, and the answer into the trace, before a tool
that failed ends the call.
-/

namespace Ensemble

/-- Whose usage is recorded, and under which event. -/
structure Accountant where
  event : String
  session : String
  agent : String
  bills : Bool
deriving DecidableEq, Repr

structure AgentHandle where
  name : String
  model : String
  system : String
  /-- The tools by the names that the model knows them by. -/
  tools : List (String × Tool)
  context : ToolContext
  accountant : Accountant
  /-- How many answers one call may need; there is always at least one. -/
  maxSteps : Nat
  /-- How many milliseconds the model may take to answer. -/
  timeout : Option Nat

/-- What a call of an agent has come to. -/
structure AgentReply where
  text : String
  usage : Tokens
  modelCalls : Nat
  toolCalls : Nat
deriving DecidableEq, Repr

def AgentReply.empty : AgentReply := { text := "", usage := .zero, modelCalls := 0, toolCalls := 0 }

namespace Accountant

/-- Adds the usage of an answer to the session and, if that can be done, to the statistics and to
the bill, where a failure does no harm. -/
def record (a : Accountant) (delta : Tokens) (finishReason : String) :
    RunProg (Except String Unit) := do
  match ← RunProg.recordSession a.session a.agent delta with
  | .error message => return .error message
  | .ok usage =>
    let stat := Usage.Stat.ofEvent a.event usage.delta (some finishReason) usage.time
    RunProg.note (.aggregate stat)
    if a.bills then
      RunProg.note (.bill usage stat)
    return .ok ()

end Accountant

namespace AgentHandle

def fail (h : AgentHandle) (fault : CallFault) : CallError := { agent := h.name, fault }

/-- What the model is told about the tools. -/
def toolSpecs (h : AgentHandle) : List ToolSpec :=
  h.tools.map fun (handle, tool) => { tool.spec with name := handle }

def request (h : AgentHandle) (history : List Message) : ModelRequest :=
  { model := h.model, system := h.system, messages := history, tools := h.toolSpecs }

/-- One answer of the model; a model that takes longer than the limit is not waited for. -/
def complete (h : AgentHandle) (history : List Message) :
    RunProg (Except CallError ModelResponse) := do
  let pending ← RunProg.send (h.request history)
  let late := h.timeout.filter (· < pending.delay)
  match late with
  | some limit =>
    Prog.wait limit
    return .error (h.fail (.timeout (.ofMillis limit)))
  | none =>
    Prog.wait pending.delay
    match pending.outcome with
    | .answered response => return .ok response
    | .failed e => return .error (h.fail (.model e))
    | .crashed => .crash

/-- Uses a tool that the model has asked for. -/
def runTool (h : AgentHandle) (context : ToolContext) (c : ToolCall) :
    RunProg (Except CallError Json) := do
  match h.tools.lookup c.name with
  | none => return .error (h.fail (.unknownTool c.name))
  | some tool =>
    match ← RunProg.invoke tool c.args context with
    | .ok result => return .ok result
    | .error e => return .error (h.fail (.tool c.name e))

/-- Uses tools in order up to the first that fails: the results, and that failure. -/
def runTools (h : AgentHandle) (context : ToolContext) :
    List ToolCall → RunProg (List Part × Option CallError)
  | [] => return ([], none)
  | c :: rest => do
    match ← h.runTool context c with
    | .error e => return ([], some e)
    | .ok result =>
      let (results, failure) ← h.runTools context rest
      return (.toolResult c.id c.name result :: results, failure)

/-- The answer of a model as a message. -/
def assistantMessage (r : ModelResponse) : Message :=
  { role := .assistant
    content := (if r.text.isEmpty then [] else [.text r.text])
      ++ r.toolCalls.map fun c => .toolCall c.id c.name c.args }

/-- What a round adds to the conversation. -/
def roundMessages (r : ModelResponse) (results : List Part) : List Message :=
  assistantMessage r :: if results.isEmpty then [] else [{ role := .tool, content := results }]

/-- Puts an answer on record and into the trace. -/
def finishRound (h : AgentHandle) (step : String) (r : ModelResponse) (messages : List Message) :
    RunProg (Except CallError Unit) := do
  match ← h.accountant.record r.usage r.finishReason with
  | .error message => return .error (h.fail (.accounting message))
  | .ok () =>
    RunProg.note (.emitFinish h.name h.model step messages r.usage r.finishReason)
    return .ok ()

/-- Up to `left` more rounds of the conversation. -/
def rounds (h : AgentHandle) (step : String) :
    Nat → List Message → AgentReply → RunProg (Except CallError AgentReply)
  | 0, _, reply => return .ok reply
  | left + 1, history, reply => do
    match ← h.complete history with
    | .error e => return .error e
    | .ok r =>
      let (results, failure) ← h.runTools { h.context with step } r.toolCalls
      let messages := roundMessages r results
      match ← h.finishRound step r messages with
      | .error e => return .error e
      | .ok () =>
        match failure with
        | some e => return .error e
        | none =>
          let reply : AgentReply :=
            { text := r.text, usage := reply.usage + r.usage, modelCalls := reply.modelCalls + 1
              toolCalls := reply.toolCalls + results.length }
          if r.toolCalls.isEmpty then return .ok reply
          else h.rounds step left (history ++ messages) reply

/-- Calls the agent for a step. -/
def invoke (h : AgentHandle) (step : String) (message : Message) :
    RunProg (Except CallError AgentReply) :=
  h.rounds step (max h.maxSteps 1) [message] .empty

end AgentHandle

end Ensemble
