import Ensemble.Time.Span
import Ensemble.Yaml.Reading

/-!
# Engine configuration

The settings that an operator gives an engine, each with a default.
-/

namespace Ensemble

/-- What happens to the branches of a parallel node that still run when one of them fails. -/
inductive FailurePolicy
  | completeInFlight
  | cancelSiblings
deriving DecidableEq, Repr

/-- How many branches of a parallel node may run at once, and what a failure does to the others. -/
structure FanoutConfig where
  maxConcurrency : Option Nat
  failure : FailurePolicy
deriving DecidableEq, Repr

structure Config where
  maxConcurrency : Option Nat
  /-- How long a model may take to answer, in milliseconds. -/
  stepTimeout : Option Nat
  /-- How many answers of a model one call of an agent may need. -/
  maxToolSteps : Nat
  failure : FailurePolicy
  defaultInjection : Bool
  extractDocuments : Bool
  /-- Whether a file that cannot be used keeps a flow from starting. -/
  strictExtraction : Bool
  streamBuffer : Nat
  statsEvent : String
deriving DecidableEq, Repr

def FailurePolicy.name : FailurePolicy → String
  | .completeInFlight => "complete_in_flight"
  | .cancelSiblings => "cancel_siblings"

namespace Config

def default : Config :=
  { maxConcurrency := none, stepTimeout := none, maxToolSteps := 5, failure := .completeInFlight
    defaultInjection := true, extractDocuments := true, strictExtraction := false
    streamBuffer := 64, statsEvent := "flow" }

def fanout (c : Config) : FanoutConfig := { maxConcurrency := c.maxConcurrency, failure := c.failure }

def timeout (c : Config) : Option Span := c.stepTimeout.map Span.ofMillis

/-! ## Changes -/

/-- Parts of a millisecond are cut off. -/
def withTimeout (limit : Span) (c : Config) : Config :=
  { c with stepTimeout := some (limit.toMillis % UInt64.size) }

/-- There is always one step. -/
def withMaxToolSteps (n : Nat) (c : Config) : Config := { c with maxToolSteps := max n 1 }

/-- There is always room for one line. -/
def withStreamBuffer (n : Nat) (c : Config) : Config := { c with streamBuffer := max n 1 }

/-! ## Notation -/

def toJson (c : Config) : Json :=
  .object [("max_concurrency", .ofOption .ofNat c.maxConcurrency),
    ("step_timeout_ms", .ofOption .ofNat c.stepTimeout),
    ("max_tool_steps", .ofNat c.maxToolSteps), ("parallel_failure", .string c.failure.name),
    ("default_injection", .bool c.defaultInjection),
    ("extract_documents", .bool c.extractDocuments),
    ("strict_extraction", .bool c.strictExtraction), ("stream_buffer", .ofNat c.streamBuffer),
    ("stats_event_name", .string c.statsEvent)]

open Decode

section

variable {ν : Type} [Source ν]

def readPolicy? (node : ν) : Option FailurePolicy := do
  match ← Source.choice? node with
  | "complete_in_flight" => some .completeInFlight
  | "cancel_siblings" => some .cancelSiblings
  | _ => none

def readNat? (node : ν) : Option Nat := (Source.count? node).map UInt64.toNat

/-- A number of 32 bits. -/
def readSteps? (node : ν) : Option Nat := (readNat? node).filter (· < UInt32.size)

def read? (node : ν) : Option Config := do
  let fields ← record? 9 node
  let d := default
  let maxConcurrency ←
    fields.withDefault? 0 ["max_concurrency"] (option? readNat?) d.maxConcurrency
  let stepTimeout ← fields.withDefault? 1 ["step_timeout_ms"] (option? readNat?) d.stepTimeout
  let maxToolSteps ← fields.withDefault? 2 ["max_tool_steps"] readSteps? d.maxToolSteps
  let failure ← fields.withDefault? 3 ["parallel_failure"] readPolicy? d.failure
  let defaultInjection ←
    fields.withDefault? 4 ["default_injection"] Source.flag? d.defaultInjection
  let extractDocuments ←
    fields.withDefault? 5 ["extract_documents"] Source.flag? d.extractDocuments
  let strictExtraction ←
    fields.withDefault? 6 ["strict_extraction"] Source.flag? d.strictExtraction
  let streamBuffer ← fields.withDefault? 7 ["stream_buffer"] readNat? d.streamBuffer
  let statsEvent ← fields.withDefault? 8 ["stats_event_name"] Source.text? d.statsEvent
  return { maxConcurrency, stepTimeout, maxToolSteps, failure, defaultInjection, extractDocuments
           strictExtraction, streamBuffer, statsEvent }

end

/-- The configuration of a YAML text. -/
def ofYaml? (text : String) : Option Config := do read? (← Yaml.Node.read? text)

end Config

end Ensemble
