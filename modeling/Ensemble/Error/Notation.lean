import Ensemble.Error
import Ensemble.Json.Basic

/-!
# Failures as values

A failure is shown with its kind and its message. A failure of a flow also tells the status of the
answer and whether the flow has started, a failed call tells which agent was called.
-/

namespace Ensemble

/-- A failure of some kind. -/
def failureJson (kind message : String) : Json :=
  .object [("error", .string kind), ("message", .string message)]

def Invalid.kind : Invalid → String
  | .unknownAgent .. => "UnknownAgent"
  | .duplicateAgent _ => "DuplicateAgent"
  | .duplicateInput _ => "DuplicateInput"
  | .duplicateFlow _ => "DuplicateFlow"
  | .flowNotFound _ => "FlowNotFound"
  | .agentNotFound _ => "AgentNotFound"
  | .emptyComposite .. => "EmptyComposite"
  | .missingInput _ => "MissingInput"
  | .invalidInput .. => "InvalidInput"
  | .invalidRequest _ => "InvalidRequest"
  | .invalidDefinition _ => "InvalidDefinition"

def Invalid.toJson (e : Invalid) : Json := failureJson e.kind e.message

def ToolError.kind : ToolError → String
  | .notFound _ => "NotFound"
  | .invalidArguments _ => "InvalidArguments"
  | .execution _ => "Execution"

def ToolError.toJson (e : ToolError) : Json := failureJson e.kind e.message

def CallFault.kind : CallFault → String
  | .unknownAgent => "UnknownAgent"
  | .model _ => "Model"
  | .tool .. => "Tool"
  | .unknownTool _ => "UnknownTool"
  | .timeout _ => "Timeout"
  | .accounting _ => "Accounting"

def CallError.toJson (e : CallError) : Json :=
  .object [("error", .string e.fault.kind), ("message", .string e.message),
    ("agent", .string e.agent)]

def FlowError.kind : FlowError → String
  | .invalid _ => "Validation"
  | .extraction _ => "Extraction"
  | .call _ => "AgentCall"
  | .quota _ => "QuotaExceeded"
  | .streamWrite _ => "StreamWrite"
  | .collaborator _ => "Collaborator"

def FlowError.toJson (e : FlowError) : Json :=
  .object [("error", .string e.kind), ("message", .string e.message), ("status", .ofNat e.status),
    ("preFlight", .bool e.isPreFlight)]

def ExtractionFault.kind : ExtractionFault → String
  | .decode _ => "Decode"
  | .unsupported _ => "Unsupported"
  | .failed _ => "Failed"

def ExtractionError.toJson (e : ExtractionError) : Json :=
  .object [("input", .string e.input), ("error", .string e.fault.kind),
    ("message", .string e.message)]

end Ensemble
