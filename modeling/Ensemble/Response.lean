import Ensemble.Trace.Chunk

/-!
# Responses

A request is answered with a stream of trace chunks or with a JSON value: the last chunk of a run,
or the failure that kept it from starting.
-/

namespace Ensemble

inductive ResponseBody
  | json (value : Json)
  | stream
deriving Repr

structure Response where
  status : Nat
  headers : List (String × String)
  body : ResponseBody
deriving Repr

namespace Response

def stream : Response :=
  { status := 200
    headers := [("Content-Type", "application/json"), ("Cache-Control", "no-cache"),
      ("Connection", "keep-alive"), ("Transfer-Encoding", "chunked")]
    body := .stream }

def json (status : Nat) (value : Json) : Response :=
  { status, headers := [("Content-Type", "application/json")], body := .json value }

/-- The answer with the last chunk of a run that completed. -/
def final (c : Chunk) : Response := json 200 c.toJson.canonical

/-- The answer with a failure. -/
def error (e : FlowError) : Response := json e.status (Chunk.ofError e).toJson.canonical

/-- The value of a header; names are compared without case. -/
def header? (r : Response) (name : String) : Option String :=
  (r.headers.find? fun h => h.1.map Char.toLower == name.map Char.toLower).map Prod.snd

end Response

end Ensemble
