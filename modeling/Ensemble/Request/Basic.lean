import Ensemble.Clock
import Ensemble.Error
import Ensemble.Request.Body
import Ensemble.Text.Characters

/-!
# Requests

A request asks a master agent to run a flow on an input. Its session and its clock may come in
headers; what is missing is filled in by the server. Only a synchronous request for a stream is
streamed.
-/

namespace Ensemble

structure Request where
  agent : String
  session : String
  clock : Clock
  outputMode : OutputMode
  execMode : ExecMode
  flow : Option String
  input : Json
deriving Repr

/-- What a server fills into a request that does not say it. -/
structure ServerDefaults where
  session : String
  clock : Clock
deriving Repr

/-- The parts of a request that headers may give. -/
structure Headers where
  session : Option String
  iso : Option String
  localTime : Option String
  timezone : Option String
deriving Repr

namespace Headers

def empty : Headers := { session := none, iso := none, localTime := none, timezone := none }

/-- Takes a header into account: names are compared without case, blanks around a value are
dropped, and an empty value is as good as none. -/
def add (h : Headers) (header : String × String) : Headers :=
  let value := Text.trim header.2
  if value.isEmpty then h
  else
    match header.1.map Char.toLower with
    | "agent-session-id" => { h with session := some value }
    | "current-datetime-iso" => { h with iso := some value }
    | "current-datetime" => { h with localTime := some value }
    | "current-timezone" => { h with timezone := some value }
    | _ => h

/-- The last of repeated headers counts. -/
def ofList (headers : List (String × String)) : Headers := headers.foldl add empty

end Headers

namespace Request

/-- A streaming request that says nothing but its input. -/
def ofInput (agent : String) (input : Json) (server : ServerDefaults) : Request :=
  { agent, session := server.session, clock := server.clock, outputMode := .stream
    execMode := .sync, flow := none, input }

/-- The request of some headers and a body. -/
def ofParts (agent : String) (headers : List (String × String)) (body : Json)
    (server : ServerDefaults) : Except Invalid Request := do
  if Text.isBlankText agent then throw (.invalidRequest "empty agent id")
  let h := Headers.ofList headers
  match Body.read body with
  | .error fault => throw (.invalidRequest fault.message)
  | .ok b =>
    return { agent
             session := h.session.getD server.session
             clock :=
               { iso := h.iso.getD server.clock.iso
                 localTime := h.localTime.getD server.clock.localTime
                 timezone := h.timezone.getD server.clock.timezone }
             outputMode := b.outputMode, execMode := b.execMode, flow := b.flow, input := b.input }

def isStreaming (r : Request) : Bool := r.outputMode == .stream && r.execMode == .sync

end Request

end Ensemble
