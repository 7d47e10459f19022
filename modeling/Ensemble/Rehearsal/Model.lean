import Ensemble.Agent.Model
import Ensemble.Message

/-!
# Scripted models

Models that give prepared replies, each model one after the other. A model whose replies have run
out, or that has none, gives a plain one, which repeats what it was told.
-/

namespace Ensemble.Rehearsal

/-- A use of a tool that a reply asks for: the tool is named by its own name and, if there are
several of it, by its options. -/
structure ScriptedCall where
  id : String
  tool : String
  args : Json
  options : Option Json
deriving Repr

structure Reply where
  delay : Nat
  crashes : Bool
  error : Option ModelError
  text : Option String
  toolCalls : List ScriptedCall
  usage : Tokens
  finishReason : String
deriving Repr

def Reply.plain : Reply :=
  { delay := 0, crashes := false, error := none, text := none, toolCalls := []
    usage := { prompt := 10, completion := 5 }, finishReason := "stop" }

/-- The replies that each model has left. -/
structure ScriptedModel where
  replies : List (String × List Reply)
deriving Repr

/-- The name of a tool without the identifier that was added to it. -/
def baseName (handle : String) : String :=
  let cs := handle.toList
  let identifier := cs.drop (cs.length - 8)
  let before := cs.take (cs.length - 8)
  if 8 < cs.length && before.getLast? == some '_'
      && identifier.all fun c => c.isDigit || ('a' ≤ c && c ≤ 'f') then
    String.ofList before.dropLast
  else handle

/-- The name under which a tool is on offer, or its own name if it is not. -/
def handleOf (offered : List ToolSpec) (c : ScriptedCall) : String :=
  let isMeant (s : ToolSpec) : Bool :=
    baseName s.name == c.tool
      && c.options.all fun options => s.description == s!"{c.tool} {options.render}"
  match offered.find? isMeant with
  | some s => s.name
  | none => c.tool

/-- What the last message of a request says: the results of tools, or else its text. -/
def said (r : ModelRequest) : String :=
  match r.messages.getLast? with
  | none => ""
  | some m =>
    let results := m.content.filterMap fun
      | .toolResult _ _ result => some result
      | _ => none
    if results.isEmpty then m.text else (Json.array results).render

def Reply.outcome (reply : Reply) (r : ModelRequest) : ModelOutcome :=
  if reply.crashes then .crashed
  else
    match reply.error with
    | some e => .failed e
    | none =>
      .answered
        { text := reply.text.getD s!"{r.model}<{said r}>"
          toolCalls := reply.toolCalls.map fun c =>
            { id := c.id, name := handleOf r.tools c, args := c.args }
          usage := reply.usage
          finishReason := reply.finishReason }

/-- Takes the next reply of a model. -/
def ScriptedModel.next (m : ScriptedModel) (name : String) : Reply × ScriptedModel :=
  match m.replies.lookup name with
  | some (reply :: rest) =>
    (reply, { replies := m.replies.map fun e => if e.1 == name then (name, rest) else e })
  | _ => (.plain, m)

instance : LanguageModel ScriptedModel where
  send r m :=
    let (reply, m) := m.next r.model
    ({ delay := reply.delay, outcome := reply.outcome r }, m)

end Ensemble.Rehearsal
