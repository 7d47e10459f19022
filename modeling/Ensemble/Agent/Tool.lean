import Ensemble.Error
import Ensemble.Json.Printer

/-!
# Tools

An agent may be given tools. Each binding of a tool has options, from which the library builds the
tool. One tool is always there: it saves the result of a conversation.
-/

namespace Ensemble

/-- What a model is told about a tool. -/
structure ToolSpec where
  name : String
  description : String
  parameters : Json
deriving Repr

def ToolSpec.toJson (s : ToolSpec) : Json :=
  .object [("name", .string s.name), ("description", .string s.description),
    ("parameters", s.parameters)]

/-- Where a tool is used. -/
structure ToolContext where
  agentId : String
  sessionId : String
  agentName : String
  step : String
deriving DecidableEq, Repr

/-- A use of a tool that is not the one that saves results. -/
structure Invocation where
  tool : String
  args : Json
  context : ToolContext
deriving Repr

/-- A tool: the one that saves results in a format of its own, or any other, whose replies may
depend on all that such tools have been used for before. -/
inductive Tool
  | saveResults (format : String)
  | custom (spec : ToolSpec) (run : List Invocation → Json → ToolContext → Except ToolError Json)

namespace Tool

def saveResultsName : String := "saveResults"

def saveResultsSpec : ToolSpec :=
  { name := saveResultsName
    description := "Save the final result of the conversation"
    parameters := (Json.object [
      ("type", .string "object"),
      ("properties", .object [
        ("format", .object [("type", .string "string"),
          ("description", .string "Result format, e.g. markdown or json")]),
        ("result", .object [("type", .string "string"),
          ("description", .string "The result content")])]),
      ("required", .strings ["result"])]).canonical }

def spec : Tool → ToolSpec
  | .saveResults _ => saveResultsSpec
  | .custom spec _ => spec

/-- The content to be saved, which is a text or the text of any other value. -/
def contentToSave (args : Json) : Except ToolError String :=
  match args.field? "result" with
  | none => .error (.invalidArguments "missing `result`")
  | some .null => .error (.invalidArguments "missing `result`")
  | some v => .ok v.plain

/-- The format to save in: the one that is asked for, if it is a text, or the usual one. -/
def formatToSave (usual : String) (args : Json) : String :=
  ((args.field? "format").bind Json.string?).getD usual

/-- What the tool that saves results answers. -/
def saved (format : String) : Json := .object [("format", .string format), ("saved", .bool true)]

end Tool

/-- Builds a tool from the options of a binding. -/
abbrev ToolFactory := Json → ToolContext → Except ToolError Tool

/-- The tools that bindings can name, in the order of their names. -/
structure ToolLibrary where
  factories : List (String × ToolFactory)

namespace ToolLibrary

def empty : ToolLibrary := { factories := [] }

/-- A later factory takes the place of an earlier one. -/
def register (name : String) (factory : ToolFactory) (l : ToolLibrary) : ToolLibrary :=
  { factories := Table.insert name factory l.factories }

/-- Registers a tool under its own name, for all bindings and any options. -/
def share (tool : Tool) (l : ToolLibrary) : ToolLibrary :=
  l.register tool.spec.name fun _ _ => .ok tool

def contains (name : String) (l : ToolLibrary) : Bool := Table.contains name l.factories

def names (l : ToolLibrary) : List String := l.factories.map Prod.fst

/-- The tool of a binding. -/
def resolve (name : String) (options : Json) (context : ToolContext) (l : ToolLibrary) :
    Except ToolError Tool :=
  match l.factories.lookup name with
  | none => .error (.notFound name)
  | some factory => factory options context

end ToolLibrary

end Ensemble
