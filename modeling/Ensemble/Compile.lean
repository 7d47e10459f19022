import Ensemble.Definition.Basic
import Ensemble.Input.Resolution
import Ensemble.Plan.Step
import Ensemble.Template

/-!
# Compiling flows

A stored flow and resolved inputs make a plan. Steps are named by the path to them, so their names
differ. The template of a call is rendered with the variables, holes of other declared inputs
vanish, and any other hole becomes a slot for what earlier steps will answer. Files follow the
text; a call that names no input gets all of them, unless that is turned off.
-/

namespace Ensemble.Compile

/-- What a flow is compiled with. -/
structure Scope where
  agents : List String
  declarations : List InputDeclaration
  inputs : ResolvedInputs
  /-- Whether a call that names no input gets all of them. -/
  injectsAll : Bool

def Scope.isDeclared (s : Scope) (name : String) : Bool :=
  s.declarations.any fun d => d.name == name

/-- The value of a name at compile time. -/
def Scope.value? (s : Scope) (name : String) : Option String :=
  match s.inputs.values.lookup name with
  | some value => some value
  | none => if s.isDeclared name then some "" else none

def part : ResolvedFile → Part
  | .image mime data => .image mime data
  | .text _ text => .text text

/-- The files of an input as parts of a message. -/
def Scope.fileParts (s : Scope) (name : String) : List Part :=
  match s.inputs.files.lookup name with
  | some files => files.map part
  | none => []

/-- The variable of an input as a part of a message. -/
def Scope.variableParts (s : Scope) (name : String) : List Part :=
  match s.inputs.values.lookup name with
  | some value => [.text s!"{name}: {value}"]
  | none => []

/-- What follows the text of a template. -/
def Scope.injected (s : Scope) (template : String) : List Part :=
  match Template.placeholders template with
  | [] =>
    if s.injectsAll then
      s.declarations.flatMap fun d => s.variableParts d.name ++ s.fileParts d.name
    else []
  | names => names.flatMap s.fileParts

/-- The message of a template and its slots; a blank text is left out. -/
def message (s : Scope) (template : String) : Message × List Slot :=
  let (text, slots) := Template.renderWithSlots template s.value?
  if Text.isBlankText text then (.user (s.injected template), [])
  else (.user (.text text :: s.injected template), slots)

/-- The last part of the names of the steps of a stored node. -/
def label : Node → String
  | .agentCall agent _ => agent
  | .sequence _ => "sequence"
  | .parallel _ => "parallel"

mutual

def step (s : Scope) (name : String) : Node → Except Invalid Step
  | .agentCall agent input =>
    if s.agents.contains agent then
      let (message, slots) := message s (input.getD "")
      .ok (.call { name, agent, message, slots })
    else .error (.unknownAgent agent name)
  | .sequence nodes =>
    if nodes.isEmpty then .error (.emptyComposite "sequence" name)
    else do return .sequence name (← steps s name 0 nodes)
  | .parallel nodes =>
    if nodes.isEmpty then .error (.emptyComposite "parallel" name)
    else do return .parallel name (← steps s name 0 nodes)

/-- The steps under a node, counted from `index` on. -/
def steps (s : Scope) (path : String) (index : Nat) : List Node → Except Invalid (List Step)
  | [] => .ok []
  | n :: rest => do
    let first ← step s s!"{path}/{index}:{label n}" n
    let others ← steps s path (index + 1) rest
    return first :: others

end

end Compile

/-- Compiles the flow that a key selects. -/
def compile (master : MasterAgent) (key : Option String) (inputs : ResolvedInputs)
    (injectsAll : Bool) : Except Invalid Plan := do
  let f ← master.flow key
  let scope : Compile.Scope :=
    { agents := master.agents.map AgentConfig.name, declarations := master.inputs, inputs
      injectsAll }
  let root ← Compile.step scope f.name f.flow
  return Plan.ofRoot f.name root

end Ensemble
