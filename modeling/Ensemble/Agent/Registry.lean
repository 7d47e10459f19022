import Ensemble.Agent.Handle
import Ensemble.Clock
import Ensemble.Definition.Basic
import Ensemble.Template

/-!
# Agent registries

A registry holds an agent that can be called for each one that a definition declares. The tools of
an agent get names that are new in every registry, made of the name of the tool and an identifier
of eight hexadecimal digits; only the tool that saves results keeps its own name.
-/

namespace Ensemble

/-- What agents are made with, besides their declarations. -/
structure RegistryContext where
  tools : ToolLibrary
  accountant : Accountant
  clock : Clock
  agentId : String
  sessionId : String
  resultFormat : String
  maxToolSteps : Nat
  timeout : Option Nat
  /-- The identifiers for the names of tools. -/
  identifier : Nat → String

structure Registry where
  handles : List (String × AgentHandle)

namespace Registry

def find? (r : Registry) (name : String) : Option AgentHandle := r.handles.lookup name

def size (r : Registry) : Nat := r.handles.length

/-- The name of a tool for the model. -/
def toolHandle (name identifier : String) : String := s!"{name}_{identifier}"

/-- What system prompts can name. -/
def promptVariables (c : RegistryContext) : List (String × String) :=
  c.clock.entries ++ [("sessionId", c.sessionId)]

def toolContext (c : RegistryContext) (a : AgentConfig) : ToolContext :=
  { agentId := c.agentId, sessionId := c.sessionId, agentName := a.name, step := "" }

/-- Builds the tools of an agent, from the `place`th identifier on. -/
def buildTools (c : RegistryContext) (a : AgentConfig) (place : Nat) :
    List ToolBinding → Except CallError (List (String × Tool))
  | [] => .ok []
  | b :: rest =>
    match c.tools.resolve b.name b.options (toolContext c a) with
    | .error e => .error { agent := a.name, fault := .tool b.name e }
    | .ok tool => do
      let others ← buildTools c a (place + 1) rest
      return (toolHandle b.name (c.identifier place), tool) :: others

def buildHandle (c : RegistryContext) (place : Nat) (a : AgentConfig) :
    Except CallError AgentHandle := do
  let tools ← buildTools c a place a.tools
  return { name := a.name
           model := a.model
           system := Template.renderPairs a.system (promptVariables c)
           tools := Table.ofList (tools ++ [(Tool.saveResultsName, .saveResults c.resultFormat)])
           context := toolContext c a
           accountant := c.accountant
           maxSteps := max c.maxToolSteps 1
           timeout := c.timeout }

/-- Builds the agents, from the `place`th identifier on. -/
def buildAll (c : RegistryContext) (place : Nat) :
    List AgentConfig → Except CallError (List (String × AgentHandle))
  | [] => .ok []
  | a :: rest => do
    let h ← buildHandle c place a
    let others ← buildAll c (place + a.tools.length) rest
    return (a.name, h) :: others

/-- The registry of some agents; of two with one name the later one counts. -/
def build (c : RegistryContext) (agents : List AgentConfig) : Except CallError Registry := do
  return { handles := Table.ofList (← buildAll c 0 agents) }

end Registry

end Ensemble
