import Ensemble.Decode.Source
import Ensemble.Definition.Basic

/-!
# Definitions as data

How definitions are read from JSON and YAML, and written. Kinds of inputs and calls of agents have
more than one spelling; they are written in the first one.
-/

namespace Ensemble

def InputKind.name : InputKind → String
  | .shortText => "shortText"
  | .longText => "longText"
  | .number => "number"
  | .json => "json"
  | .date => "date"
  | .file => "fileBase64"

def InputKind.ofName? : String → Option InputKind
  | "shortText" => some .shortText
  | "text" => some .shortText
  | "string" => some .shortText
  | "longText" => some .longText
  | "number" => some .number
  | "json" => some .json
  | "date" => some .date
  | "fileBase64" => some .file
  | _ => none

/-! ## Writing -/

def InputDeclaration.toJson (d : InputDeclaration) : Json :=
  .object [("name", .string d.name), ("description", .string d.description),
    ("type", .string d.kind.name), ("required", .bool d.required)]

def ToolBinding.toJson (b : ToolBinding) : Json :=
  .object [("name", .string b.name), ("options", b.options)]

def AgentConfig.toJson (a : AgentConfig) : Json :=
  .object [("name", .string a.name), ("model", .string a.model), ("system", .string a.system),
    ("tools", .array (a.tools.map ToolBinding.toJson))]

mutual

def Node.toJson : Node → Json
  | .agentCall agent input =>
    .object ([("type", .string "agentCall"), ("agent", .string agent)]
      ++ match input with
        | none => []
        | some text => [("input", .string text)])
  | .sequence steps => .object [("type", .string "sequence"), ("steps", .array (Node.toItems steps))]
  | .parallel steps => .object [("type", .string "parallel"), ("steps", .array (Node.toItems steps))]

def Node.toItems : List Node → List Json
  | [] => []
  | n :: rest => n.toJson :: Node.toItems rest

end

def FlowDefinition.toJson (f : FlowDefinition) : Json :=
  .object [("name", .string f.name), ("code", .ofOption .string f.code), ("flow", f.flow.toJson)]

def MasterAgent.toJson (m : MasterAgent) : Json :=
  .object [("id", .string m.id), ("displayName", .string m.displayName),
    ("published", .bool m.published), ("locale", .ofOption .string m.locale),
    ("inputs", .array (m.inputs.map InputDeclaration.toJson)),
    ("agents", .array (m.agents.map AgentConfig.toJson)),
    ("flows", .array (m.flows.map FlowDefinition.toJson)),
    ("defaultResultFormat", .string m.resultFormat)]

/-! ## Reading -/

open Decode

section

variable {ν : Type} [Source ν]

def InputKind.read? (node : ν) : Option InputKind := do InputKind.ofName? (← Source.choice? node)

def InputDeclaration.read? (node : ν) : Option InputDeclaration := do
  let fields ← record? 4 node
  let name ← fields.required? 0 ["name"] Source.text?
  let description ← fields.withDefault? 1 ["description"] Source.text? ""
  let kind ← fields.withDefault? 2 ["type", "kind"] InputKind.read? .shortText
  let required ← fields.withDefault? 3 ["required"] Source.flag? false
  return { name, description, kind, required }

def ToolBinding.read? (node : ν) : Option ToolBinding := do
  let fields ← record? 2 node
  let name ← fields.required? 0 ["name"] Source.text?
  let options ← fields.withDefault? 1 ["options"] Source.free? .null
  return { name, options }

def AgentConfig.read? (node : ν) : Option AgentConfig := do
  let fields ← record? 4 node
  let name ← fields.required? 0 ["name"] Source.text?
  let model ← fields.required? 1 ["model"] Source.text?
  let system ← fields.withDefault? 2 ["system"] Source.text? ""
  let tools ← fields.withDefault? 3 ["tools"] (list? ToolBinding.read?) []
  return { name, model, system, tools }

end

def Node.variants : List (List String) := [["agentCall", "step"], ["sequence"], ["parallel"]]

/-- The node of a given variant, when its steps are read by `step`. -/
def Node.ofBody? (step : Content → Option Node) (variant : Nat) (body : Content) : Option Node :=
  match variant with
  | 0 => do
    let fields ← record? 2 body
    let agent ← fields.required? 0 ["agent"] Source.text?
    let input ← fields.withDefault? 1 ["input"] (option? Source.text?) none
    return .agentCall agent input
  | 1 => do
    let fields ← record? 1 body
    return .sequence (← fields.required? 0 ["steps"] (list? step))
  | 2 => do
    let fields ← record? 1 body
    return .parallel (← fields.required? 0 ["steps"] (list? step))
  | _ => none

/-- Reads a node of set-aside data, to the given depth. -/
def Node.readContent? : Nat → Content → Option Node
  | 0, _ => none
  | level + 1, node => do
    let (variant, body) ← tagged? Node.variants node
    Node.ofBody? (Node.readContent? level) variant body

section

variable {ν : Type} [Source ν]

def Node.read? (node : ν) : Option Node := do
  let (variant, body) ← tagged? Node.variants node
  Node.ofBody? (Node.readContent? body.depth) variant body

def FlowDefinition.read? (node : ν) : Option FlowDefinition := do
  let fields ← record? 3 node
  let name ← fields.required? 0 ["name"] Source.text?
  let code ← fields.withDefault? 1 ["code"] (option? Source.text?) none
  let flow ← fields.required? 2 ["flow"] Node.read?
  return { name, code, flow }

def MasterAgent.read? (node : ν) : Option MasterAgent := do
  let fields ← record? 8 node
  let id ← fields.required? 0 ["id"] Source.text?
  let displayName ← fields.withDefault? 1 ["displayName"] Source.text? ""
  let published ← fields.withDefault? 2 ["published"] Source.flag? false
  let locale ← fields.withDefault? 3 ["locale"] (option? Source.text?) none
  let inputs ← fields.withDefault? 4 ["inputs"] (list? InputDeclaration.read?) []
  let agents ← fields.required? 5 ["agents"] (list? AgentConfig.read?)
  let flows ← fields.required? 6 ["flows"] (list? FlowDefinition.read?)
  let resultFormat ← fields.withDefault? 7 ["defaultResultFormat"] Source.text? "markdown"
  return { id, displayName, published, locale, inputs, agents, flows, resultFormat }

end

end Ensemble
