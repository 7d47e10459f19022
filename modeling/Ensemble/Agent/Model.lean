import Ensemble.Agent.Tool
import Ensemble.Message
import Ensemble.Usage.Tokens

/-!
# Language models

A model is asked with everything that has been said so far and the tools on offer. It answers after
a while, maybe asking for tools, or it fails.
-/

namespace Ensemble

structure ModelRequest where
  model : String
  system : String
  messages : List Message
  tools : List ToolSpec
deriving Repr

/-- A use of a tool that a model asks for. -/
structure ToolCall where
  id : String
  name : String
  args : Json
deriving Repr

structure ModelResponse where
  text : String
  toolCalls : List ToolCall
  usage : Tokens
  finishReason : String
deriving Repr

/-- What comes of a request. -/
inductive ModelOutcome
  | answered (response : ModelResponse)
  | failed (error : ModelError)
  | crashed
deriving Repr

/-- The outcome of a request, and how many milliseconds it takes. -/
structure PendingModel where
  delay : Nat
  outcome : ModelOutcome
deriving Repr

/-- Models whose state is an `M`. -/
class LanguageModel (M : Type) where
  send : ModelRequest → M → PendingModel × M

end Ensemble
