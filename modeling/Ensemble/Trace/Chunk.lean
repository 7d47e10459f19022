import Ensemble.Error
import Ensemble.Message
import Ensemble.Time.Reading
import Ensemble.Usage.Tokens

/-!
# Trace chunks

All that a run shows of itself, in the order in which it happened: calls of agents that start,
answers of models, and at the end the result or the failure. On the wire a chunk is a line of JSON.
-/

namespace Ensemble

inductive Chunk
  | flowStart (name step : String) (input : Json) (startedAt : Instant)
  | stepFinish (name model step : String) (messages : List Message) (usage : Tokens)
      (finishReason : String) (finishedAt : Instant)
  | finalResponse (name : String) (result : Json) (finishedAt : Instant)
  | error (message : String)
deriving Repr

inductive Chunk.Kind
  | flowStart
  | stepFinish
  | finalResponse
  | error
deriving DecidableEq, Repr

def Chunk.Kind.name : Chunk.Kind → String
  | .flowStart => "FlowStart"
  | .stepFinish => "StepFinish"
  | .finalResponse => "FinalResponse"
  | .error => "Error"

namespace Chunk

def kind : Chunk → Kind
  | .flowStart .. => .flowStart
  | .stepFinish .. => .stepFinish
  | .finalResponse .. => .finalResponse
  | .error _ => .error

/-- The time of a chunk; failures have none. -/
def time? : Chunk → Option Instant
  | .flowStart _ _ _ t => some t
  | .stepFinish _ _ _ _ _ _ t => some t
  | .finalResponse _ _ t => some t
  | .error _ => none

/-- The agent or the flow that a chunk is about. -/
def name? : Chunk → Option String
  | .flowStart name .. => some name
  | .stepFinish name .. => some name
  | .finalResponse name .. => some name
  | .error _ => none

/-- The step that a chunk is about. -/
def step? : Chunk → Option String
  | .flowStart _ step .. => some step
  | .stepFinish _ _ step .. => some step
  | _ => none

def usage? : Chunk → Option Tokens
  | .stepFinish _ _ _ _ usage _ _ => some usage
  | _ => none

/-- Whether nothing comes after the chunk. -/
def isTerminal : Chunk → Bool
  | .finalResponse .. => true
  | .error _ => true
  | _ => false

def ofError (e : FlowError) : Chunk := .error e.message

/-! ## Notation -/

def toJson : Chunk → Json
  | .flowStart name step input t =>
    .object [("type", .string "flowStart"), ("name", .string name), ("step", .string step),
      ("input", input), ("startedAt", .string t.render)]
  | .stepFinish name model step messages usage finishReason t =>
    .object [("type", .string "stepFinish"), ("name", .string name), ("model", .string model),
      ("step", .string step), ("messages", .array (messages.map Message.toJson)),
      ("usage", usage.toJson), ("finishReason", .string finishReason),
      ("finishedAt", .string t.render)]
  | .finalResponse name result t =>
    .object [("type", .string "finalResponse"), ("name", .string name), ("result", result),
      ("finishedAt", .string t.render)]
  | .error message => .object [("type", .string "error"), ("message", .string message)]

/-- The chunk as a line of JSON, with the end of the line. -/
def line (c : Chunk) : String := String.ofList (c.toJson.compact ++ ['\n'])

def variants : List (List String) := [["flowStart"], ["stepFinish"], ["finalResponse"], ["error"]]

open Decode in
/-- The chunk of a given variant. -/
def ofBody? (variant : Nat) (body : Content) : Option Chunk :=
  let instant (node : Content) : Option Instant := do Instant.read? (← Source.text? node)
  match variant with
  | 0 => do
    let fields ← record? 4 body
    let name ← fields.required? 0 ["name"] Source.text?
    let step ← fields.required? 1 ["step"] Source.text?
    let input ← fields.required? 2 ["input"] Source.free?
    let startedAt ← fields.required? 3 ["startedAt"] instant
    return .flowStart name step input startedAt
  | 1 => do
    let fields ← record? 7 body
    let name ← fields.required? 0 ["name"] Source.text?
    let model ← fields.required? 1 ["model"] Source.text?
    let step ← fields.required? 2 ["step"] Source.text?
    let messages ← fields.required? 3 ["messages"] (list? Message.read?)
    let usage ← fields.required? 4 ["usage"] Tokens.read?
    let finishReason ← fields.required? 5 ["finishReason"] Source.text?
    let finishedAt ← fields.required? 6 ["finishedAt"] instant
    return .stepFinish name model step messages usage finishReason finishedAt
  | 2 => do
    let fields ← record? 3 body
    let name ← fields.required? 0 ["name"] Source.text?
    let result ← fields.required? 1 ["result"] Source.free?
    let finishedAt ← fields.required? 2 ["finishedAt"] instant
    return .finalResponse name result finishedAt
  | 3 => do
    let fields ← record? 1 body
    let message ← fields.required? 0 ["message"] Source.text?
    return .error message
  | _ => none

def read? {ν : Type} [Decode.Source ν] (node : ν) : Option Chunk := do
  let (variant, body) ← Decode.tagged? variants node
  ofBody? variant body

end Chunk

/-- How many chunks of each kind a trace has. -/
structure ChunkCounts where
  flowStart : Nat
  stepFinish : Nat
  finalResponse : Nat
  error : Nat
deriving DecidableEq, Repr

namespace ChunkCounts

def ofTrace (trace : List Chunk) : ChunkCounts :=
  let count (k : Chunk.Kind) : Nat := trace.countP fun c => c.kind == k
  { flowStart := count .flowStart, stepFinish := count .stepFinish
    finalResponse := count .finalResponse, error := count .error }

def total (c : ChunkCounts) : Nat := c.flowStart + c.stepFinish + c.finalResponse + c.error

end ChunkCounts

end Ensemble
