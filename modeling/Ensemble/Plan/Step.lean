import Ensemble.Error
import Ensemble.Message
import Ensemble.Text.Utf8

/-!
# Plans

A plan is a tree of steps: calls of agents under sequences and parallel nodes. `Step.walk` lists
its steps in the order in which a reader meets them, a node before what is under it; all that a
plan tells about itself (`find?`, `agents`, `validate`, `Outline`) is read off that list.

When a call starts, its slots are filled with what earlier steps have answered, from the last slot
to the first, so that a replacement does not move the slots still to come. A slot that is not in a
text part, or not between characters of it, is passed over. A slot that ends before it starts
cannot be filled: if there is a value for it, binding crashes.
-/

namespace Ensemble

/-- A name that has been left open in a text part: its bytes `start` to `stop` are to be replaced
by the value of `name`, once there is one. -/
structure Slot where
  part : Nat
  start : Nat
  stop : Nat
  name : String
deriving DecidableEq, Repr

/-- A step that sends a message to an agent. -/
structure Call where
  name : String
  agent : String
  message : Message
  slots : List Slot
deriving Repr

inductive Step
  | call (call : Call)
  | sequence (name : String) (steps : List Step)
  | parallel (name : String) (steps : List Step)
deriving Repr

namespace Step

def name : Step → String
  | .call c => c.name
  | .sequence name _ => name
  | .parallel name _ => name

/-- What kind of step it is, as plans are written. -/
def kind : Step → String
  | .call _ => "agentCall"
  | .sequence .. => "sequence"
  | .parallel .. => "parallel"

def children : Step → List Step
  | .call _ => []
  | .sequence _ steps => steps
  | .parallel _ steps => steps

def isCall : Step → Bool
  | .call _ => true
  | _ => false

def call? : Step → Option Call
  | .call c => some c
  | _ => none

mutual

/-- All steps of a tree, a step before those under it. -/
def walk : Step → List Step
  | .call c => [.call c]
  | .sequence name steps => .sequence name steps :: walkAll steps
  | .parallel name steps => .parallel name steps :: walkAll steps

def walkAll : List Step → List Step
  | [] => []
  | s :: rest => walk s ++ walkAll rest

end

mutual

/-- The number of levels of a tree. -/
def depth : Step → Nat
  | .call _ => 1
  | .sequence _ steps => 1 + depthAll steps
  | .parallel _ steps => 1 + depthAll steps

def depthAll : List Step → Nat
  | [] => 0
  | s :: rest => max (depth s) (depthAll rest)

end

/-- The first step of a name. -/
def find? (name : String) (s : Step) : Option Step := s.walk.find? fun t => t.name == name

end Step

/-! ## Plans -/

/-- What a plan says about its tree. -/
structure Outline where
  flow : String
  steps : Nat
  calls : Nat
  depth : Nat
deriving DecidableEq, Repr

structure Plan where
  name : String
  root : Step
  outline : Outline
deriving Repr

/-- Puts a text at its place among ascending ones, unless it is there. -/
def insertText (s : String) : List String → List String
  | [] => [s]
  | t :: rest => if s < t then s :: t :: rest else if s = t then t :: rest else t :: insertText s rest

namespace Plan

def ofRoot (name : String) (root : Step) : Plan :=
  { name, root
    outline :=
      { flow := name, steps := root.walk.length, calls := root.walk.countP Step.isCall
        depth := root.depth } }

/-- The agents that the plan calls, in ascending order. -/
def agents (p : Plan) : List String :=
  (p.root.walk.filterMap Step.call?).foldl (fun names c => insertText c.agent names) []

/-- Whether names repeat or nodes are empty among steps, when the names in `seen` are taken. -/
def validateFrom (seen : List String) : List Step → Except Invalid Unit
  | [] => .ok ()
  | s :: rest =>
    if seen.contains s.name then .error (.invalidDefinition s!"duplicate step name {s.name}")
    else if !s.isCall && s.children.isEmpty then .error (.emptyComposite s.kind s.name)
    else validateFrom (s.name :: seen) rest

/-- The names of the steps must differ and no node may be empty. -/
def validate (p : Plan) : Except Invalid Unit := validateFrom [] p.root.walk

end Plan

/-! ## Notation -/

namespace Slot

def toJson (s : Slot) : Json :=
  .object [("part", .ofNat s.part), ("start", .ofNat s.start), ("end", .ofNat s.stop),
    ("name", .string s.name)]

open Decode in
def read? {ν : Type} [Source ν] (node : ν) : Option Slot := do
  let fields ← record? 4 node
  let part ← fields.required? 0 ["part"] Source.count?
  let start ← fields.required? 1 ["start"] Source.count?
  let stop ← fields.required? 2 ["end"] Source.count?
  let name ← fields.required? 3 ["name"] Source.text?
  return { part := part.toNat, start := start.toNat, stop := stop.toNat, name }

end Slot

namespace Call

def fields (c : Call) : List (String × Json) :=
  [("name", .string c.name), ("agent", .string c.agent), ("message", c.message.toJson)]
    ++ if c.slots.isEmpty then [] else [("lateBindings", .array (c.slots.map Slot.toJson))]

open Decode in
def read? {ν : Type} [Source ν] (node : ν) : Option Call := do
  let fields ← record? 4 node
  let name ← fields.required? 0 ["name"] Source.text?
  let agent ← fields.required? 1 ["agent"] Source.text?
  let message ← fields.required? 2 ["message"] Message.read?
  let slots ← fields.withDefault? 3 ["lateBindings"] (list? Slot.read?) []
  return { name, agent, message, slots }

end Call

namespace Step

mutual

def toJson : Step → Json
  | .call c => .object (("type", .string "agentCall") :: c.fields)
  | .sequence name steps =>
    .object [("type", .string "sequence"), ("name", .string name), ("steps", .array (toItems steps))]
  | .parallel name steps =>
    .object [("type", .string "parallel"), ("name", .string name), ("steps", .array (toItems steps))]

def toItems : List Step → List Json
  | [] => []
  | s :: rest => toJson s :: toItems rest

end

def variants : List (List String) := [["agentCall"], ["sequence"], ["parallel"]]

open Decode

/-- The step of a given variant, when the steps under it are read by `step`. -/
def ofBody? (step : Content → Option Step) (variant : Nat) (body : Content) : Option Step :=
  match variant with
  | 0 => (Call.read? body).map .call
  | 1 => do
    let fields ← record? 2 body
    let name ← fields.required? 0 ["name"] Source.text?
    return .sequence name (← fields.required? 1 ["steps"] (list? step))
  | 2 => do
    let fields ← record? 2 body
    let name ← fields.required? 0 ["name"] Source.text?
    return .parallel name (← fields.required? 1 ["steps"] (list? step))
  | _ => none

/-- Reads a step of set-aside data, to the given depth. -/
def readContent? : Nat → Content → Option Step
  | 0, _ => none
  | level + 1, node => do
    let (variant, body) ← tagged? variants node
    ofBody? (readContent? level) variant body

def read? {ν : Type} [Source ν] (node : ν) : Option Step := do
  let (variant, body) ← tagged? variants node
  ofBody? (readContent? body.depth) variant body

end Step

def Plan.toJson (p : Plan) : Json :=
  .object [("name", .string p.name), ("root", p.root.toJson),
    ("metadata", .object [("flowName", .string p.outline.flow),
      ("totalSteps", .ofNat p.outline.steps), ("agentCalls", .ofNat p.outline.calls),
      ("maxDepth", .ofNat p.outline.depth)])]

/-! ## Binding -/

/-- What binding has done so far: the parts, and the names that were asked for, latest first. -/
structure Binding where
  content : List Part
  asked : List String

namespace Binding

/-- Replaces the bytes `start` to `stop`, which must lie between characters and in order. -/
def replace? (text : String) (start stop : Nat) (value : String) : Option String := do
  let (head, _) ← Text.splitAt? text.toList start
  let (_, tail) ← Text.splitAt? text.toList stop
  if stop < start then none else some (String.ofList (head ++ value.toList ++ tail))

/-- Fills one slot. -/
def fill? (lookup : String → Option String) (b : Binding) (slot : Slot) : Option Binding :=
  match b.content[slot.part]? with
  | some (.text text) =>
    if Text.isBoundary text.toList slot.start && Text.isBoundary text.toList slot.stop then
      match lookup slot.name with
      | none => some { b with asked := slot.name :: b.asked }
      | some value =>
        (replace? text slot.start slot.stop value).map fun text =>
          { content := b.content.set slot.part (.text text), asked := slot.name :: b.asked }
    else some b
  | _ => some b

end Binding

namespace Call

/-- Fills the slots of a call, and tells which names were asked for: nothing if that crashes. -/
def binding? (c : Call) (lookup : String → Option String) : Option Binding :=
  c.slots.reverse.foldlM (Binding.fill? lookup) { content := c.message.content, asked := [] }

/-- The message of a call with its slots filled. -/
def bind? (c : Call) (lookup : String → Option String) : Option Message :=
  (c.binding? lookup).map fun b => { c.message with content := b.content }

end Call

end Ensemble
