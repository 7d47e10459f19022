import Ensemble.Agent.Tool
import Ensemble.Media.Payload
import Ensemble.Input.Resolution

/-!
# Tools for rehearsals

Simple tools to try a flow out with: one that changes a text, one that gives back what it gets, one
that tells where it is, one that always fails, and one that cannot always be built. Their
descriptions show the options that they were built with.
-/

namespace Ensemble.Rehearsal

def toolSpec (name : String) (options : Json) : ToolSpec :=
  { name, description := s!"{name} {options.render}"
    parameters := .object [("type", .string "object")] }

def contextJson (c : ToolContext) : Json :=
  .strings [c.agentId, c.sessionId, c.agentName, c.step]

/-- Gives back what it gets. -/
def echo (options : Json) : Tool := .custom (toolSpec "echo" options) fun _ args _ => .ok args

/-- Writes the letters of a text in capitals, those of the basic alphabet. -/
def upper (options : Json) : Tool :=
  .custom (toolSpec "upper" options) fun _ args _ =>
    match args.field? "text" with
    | some (.string s) => .ok (.string (s.map Char.toUpper))
    | _ => .error (.invalidArguments "text")

/-- Tells where it was built and where it is used. -/
def whereabouts (options : Json) (built : ToolContext) : Tool :=
  .custom (toolSpec "where" options) fun _ _ called =>
    .ok (.object [("built", contextJson built), ("called", contextJson called),
      ("options", options)])

/-- Fails with a message of choice. -/
def broken (options : Json) : Tool :=
  .custom (toolSpec "broken" options) fun _ args _ =>
    .error (.execution (((args.field? "message").bind Json.string?).getD "broken"))

/-- Builds the tool of a name. -/
def factory? : String → Option ToolFactory
  | "echo" => some fun options _ => .ok (echo options)
  | "upper" => some fun options _ => .ok (upper options)
  | "where" => some fun options context => .ok (whereabouts options context)
  | "broken" => some fun options _ => .ok (broken options)
  | "picky" => some fun options _ =>
    match options.field? "fail" with
    | some (.string reason) => .error (.invalidArguments reason)
    | _ => .ok (echo options)
  | _ => none

def toolNames : List String := ["broken", "echo", "picky", "upper", "where"]

/-- A library with the tools of some names. -/
def library (names : List String) : ToolLibrary :=
  names.foldl (fun l name =>
    match factory? name with
    | some factory => l.register name factory
    | none => l) .empty

/-- Shares a tool without options, built nowhere in particular. -/
def share (name : String) (l : ToolLibrary) : ToolLibrary :=
  let nowhere : ToolContext := { agentId := "", sessionId := "", agentName := "", step := "" }
  match factory? name with
  | none => l
  | some factory =>
    match factory .null nowhere with
    | .ok tool => l.share tool
    | .error _ => l

/-! ## Extractors -/

/-- Tells the media type and the size of a document. -/
def measure : Extractor := fun mime bytes => .ok s!"{mime}:{bytes.length}"

/-- Fails for all documents. -/
def refuse (reason : String) : Extractor := fun _ _ => .error reason

end Ensemble.Rehearsal
