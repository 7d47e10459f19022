import Ensemble.Error
import Ensemble.Json.Basic

/-!
# Stored definitions

A master agent declares its inputs, the agents that it is made of, and flows of calls among them.
A flow is asked for by its key, which is its code or else its name.
-/

namespace Ensemble

inductive InputKind
  | shortText
  | longText
  | number
  | json
  | date
  | file
deriving DecidableEq, Repr

structure InputDeclaration where
  name : String
  description : String
  kind : InputKind
  required : Bool
deriving DecidableEq, Repr

/-- A tool that an agent may use, with options of its own. -/
structure ToolBinding where
  name : String
  options : Json
deriving Repr

structure AgentConfig where
  name : String
  model : String
  system : String
  tools : List ToolBinding
deriving Repr

/-- A stored step: a call of an agent, maybe with a template of its input, or a node of steps. -/
inductive Node
  | agentCall (agent : String) (input : Option String)
  | sequence (steps : List Node)
  | parallel (steps : List Node)
deriving Repr

structure FlowDefinition where
  name : String
  code : Option String
  flow : Node
deriving Repr

structure MasterAgent where
  id : String
  displayName : String
  published : Bool
  locale : Option String
  inputs : List InputDeclaration
  agents : List AgentConfig
  flows : List FlowDefinition
  resultFormat : String
deriving Repr

def FlowDefinition.key (f : FlowDefinition) : String := f.code.getD f.name

namespace MasterAgent

def agent? (m : MasterAgent) (name : String) : Option AgentConfig :=
  m.agents.find? fun a => a.name == name

/-- The first flow with the given key or name; without one the first flow of all. -/
def flow (m : MasterAgent) : Option String → Except Invalid FlowDefinition
  | some key =>
    match m.flows.find? fun f => f.key == key || f.name == key with
    | some f => .ok f
    | none => .error (.flowNotFound key)
  | none =>
    match m.flows.head? with
    | some f => .ok f
    | none => .error (.flowNotFound "<default>")

/-! ## Validation -/

/-- The first text that repeats one before it. -/
def repeated? (seen : List String) : List String → Option String
  | [] => none
  | s :: rest => if seen.contains s then some s else repeated? (s :: seen) rest

end MasterAgent

mutual

/-- No node may be empty; nodes are told apart by the path to them. -/
def Node.validate (path : String) : Node → Except Invalid Unit
  | .agentCall .. => .ok ()
  | .sequence steps =>
    if steps.isEmpty then .error (.emptyComposite "sequence" path)
    else Node.validateAll path 0 steps
  | .parallel steps =>
    if steps.isEmpty then .error (.emptyComposite "parallel" path)
    else Node.validateAll path 0 steps

def Node.validateAll (path : String) (index : Nat) : List Node → Except Invalid Unit
  | [] => .ok ()
  | n :: rest => do
    n.validate s!"{path}/{index}"
    Node.validateAll path (index + 1) rest

end

namespace MasterAgent

/-- The keys of flows may not repeat and no node in a flow may be empty. -/
def validateFlows (seen : List String) : List FlowDefinition → Except Invalid Unit
  | [] => .ok ()
  | f :: rest => do
    if seen.contains f.key then throw (.duplicateFlow f.key)
    f.flow.validate f.name
    validateFlows (f.key :: seen) rest

/-- What a definition must satisfy to be stored. -/
def validate (m : MasterAgent) : Except Invalid Unit := do
  if m.agents.isEmpty then
    throw (.invalidDefinition "master agent must declare at least one agent")
  if m.flows.isEmpty then
    throw (.invalidDefinition "master agent must declare at least one flow")
  if let some name := repeated? [] (m.agents.map AgentConfig.name) then
    throw (.duplicateAgent name)
  if let some name := repeated? [] (m.inputs.map InputDeclaration.name) then
    throw (.duplicateInput name)
  validateFlows [] m.flows

end MasterAgent

end Ensemble
