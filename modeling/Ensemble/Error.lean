import Ensemble.Time.Span

/-!
# What can go wrong

Failures are told by their causes. A failure before a flow starts has a fault of the caller's
behind it or a quota (`FlowError.isPreFlight`), and the status of the answer says so.
-/

namespace Ensemble

/-- What is wrong with a definition, a plan or a request. -/
inductive Invalid
  | unknownAgent (agent step : String)
  | duplicateAgent (name : String)
  | duplicateInput (name : String)
  | duplicateFlow (key : String)
  | flowNotFound (key : String)
  | agentNotFound (id : String)
  | emptyComposite (kind step : String)
  | missingInput (name : String)
  | invalidInput (name reason : String)
  | invalidRequest (reason : String)
  | invalidDefinition (reason : String)
deriving DecidableEq, Repr

def Invalid.message : Invalid → String
  | .unknownAgent agent step => s!"agent `{agent}` referenced by step `{step}` is not declared"
  | .duplicateAgent name => s!"agent name `{name}` is declared more than once"
  | .duplicateInput name => s!"input name `{name}` is declared more than once"
  | .duplicateFlow key => s!"flow code `{key}` is declared more than once"
  | .flowNotFound key => s!"flow `{key}` not found"
  | .agentNotFound id => s!"master agent `{id}` not found"
  | .emptyComposite kind step => s!"{kind} step `{step}` has no children"
  | .missingInput name => s!"missing required input `{name}`"
  | .invalidInput name reason => s!"invalid input `{name}`: {reason}"
  | .invalidRequest reason => s!"invalid request: {reason}"
  | .invalidDefinition reason => s!"invalid definition: {reason}"

/-- Why no content could be taken from a file. -/
inductive ExtractionFault
  | decode (reason : String)
  | unsupported (mime : String)
  | failed (reason : String)
deriving DecidableEq, Repr

def ExtractionFault.message : ExtractionFault → String
  | .decode reason => s!"decode failed ({reason})"
  | .unsupported mime => s!"unsupported media type {mime}"
  | .failed reason => s!"extraction failed ({reason})"

/-- A file of an input that cannot be used. -/
structure ExtractionError where
  input : String
  fault : ExtractionFault
deriving DecidableEq, Repr

def ExtractionError.message (e : ExtractionError) : String :=
  s!"cannot extract input `{e.input}`: {e.fault.message}"

inductive ModelError
  | unknownModel (message : String)
  | request (message : String)
  | invalidResponse (message : String)
deriving DecidableEq, Repr

def ModelError.message : ModelError → String
  | .unknownModel m => s!"unknown model: {m}"
  | .request m => s!"model request failed: {m}"
  | .invalidResponse m => s!"model response invalid: {m}"

inductive ToolError
  | notFound (name : String)
  | invalidArguments (message : String)
  | execution (message : String)
deriving DecidableEq, Repr

def ToolError.message : ToolError → String
  | .notFound name => s!"tool not found: {name}"
  | .invalidArguments m => s!"invalid arguments: {m}"
  | .execution m => s!"execution error: {m}"

/-- Why a call of an agent failed. -/
inductive CallFault
  | unknownAgent
  | model (error : ModelError)
  | tool (name : String) (error : ToolError)
  | unknownTool (name : String)
  | timeout (limit : Span)
  | accounting (message : String)
deriving DecidableEq, Repr

def CallFault.message : CallFault → String
  | .unknownAgent => "agent is not registered"
  | .model error => error.message
  | .tool name e => s!"tool `{name}` failed: {e.message}"
  | .unknownTool name => s!"model requested unknown tool `{name}`"
  | .timeout limit => s!"timed out after {limit.render}"
  | .accounting m => s!"usage accounting failed: {m}"

structure CallError where
  agent : String
  fault : CallFault
deriving DecidableEq, Repr

def CallError.message (e : CallError) : String := s!"agent `{e.agent}` failed: {e.fault.message}"

structure QuotaExceeded where
  reason : String
  used : UInt64
  allowed : UInt64
deriving DecidableEq, Repr

def QuotaExceeded.message (e : QuotaExceeded) : String :=
  s!"quota exceeded: {e.reason} (used {e.used.toNat} of {e.allowed.toNat} tokens)"

/-- Every way in which a flow can fail. -/
inductive FlowError
  | invalid (error : Invalid)
  | extraction (error : ExtractionError)
  | call (error : CallError)
  | quota (error : QuotaExceeded)
  | streamWrite (message : String)
  | collaborator (message : String)
deriving DecidableEq, Repr

namespace FlowError

def message : FlowError → String
  | .invalid e => e.message
  | .extraction e => e.message
  | .call e => e.message
  | .quota e => e.message
  | .streamWrite m => s!"trace stream write failed: {m}"
  | .collaborator m => s!"collaborator failed: {m}"

/-- The status of an answer that ends with the failure. -/
def status : FlowError → Nat
  | .invalid _ => 400
  | .extraction _ => 400
  | .quota _ => 403
  | _ => 499

/-- Whether the failure is one that keeps a flow from starting. -/
def isPreFlight : FlowError → Bool
  | .invalid _ => true
  | .extraction _ => true
  | .quota _ => true
  | _ => false

end FlowError

end Ensemble
