import Ensemble.Error.Notation
import Ensemble.Json.Reader
import Ensemble.Run.Events

/-!
# Transcripts

A transcript shows a run in such a way that another rehearsal of it gives the same transcript. The
times of the wall clock are left out, of chunks it is only told whether their times ascend, and
identifiers that were made up are masked.
-/

namespace Ensemble.Rehearsal.Transcript

/-- What the wall clock shows in a rehearsal. -/
def wallClock : Instant :=
  { year := 2026, month := 1, day := 15, hour := 12, minute := 0, second := 0, nano := 0 }

/-! ## Identifiers -/

/-- What the identifiers of tools start with, so that they can be told. -/
def identifierHead : List Char := ['e', '5', 'a', '1']

/-- The identifiers of tools in a rehearsal. -/
def identifier (n : Nat) : String :=
  let digits := Nat.toDigits 16 (n % 65536)
  String.ofList (identifierHead ++ (List.replicate (4 - digits.length) '0' ++ digits))

def traceId : String := "3f0c9a52-6d1b-4e87-9c40-5b7ad2e81f36"

def isIdentifierDigit (c : Char) : Bool := c.isDigit || ('a' ≤ c && c ≤ 'f')

/-- Whether a text starts with the identifier of a tool. -/
def startsWithIdentifier (cs : List Char) : Bool :=
  let digits := (cs.drop 4).take 4
  identifierHead.isPrefixOf cs && digits.length == 4 && digits.all isIdentifierDigit

/-- Masks the identifiers in the rest of a text after its first `skip` characters. -/
def maskFrom : Nat → List Char → List Char
  | _, [] => []
  | skip + 1, _ :: cs => maskFrom skip cs
  | 0, c :: cs =>
    if c == '_' && startsWithIdentifier cs then '_' :: (List.replicate 8 '#' ++ maskFrom 8 cs)
    else if traceId.toList.isPrefixOf (c :: cs) then
      "<trace>".toList ++ maskFrom (traceId.length - 1) cs
    else c :: maskFrom 0 cs

def mask (s : String) : String := String.ofList (maskFrom 0 s.toList)

mutual

/-- Masks all texts of a value. -/
def maskAll : Json → Json
  | .string s => .string (mask s)
  | .array items => .array (maskItems items)
  | .object fields => .object (maskFields fields)
  | v => v

def maskItems : List Json → List Json
  | [] => []
  | v :: rest => maskAll v :: maskItems rest

def maskFields : List (String × Json) → List (String × Json)
  | [] => []
  | (k, v) :: rest => (k, maskAll v) :: maskFields rest

end

/-! ## Traces -/

/-- A chunk without its time. -/
def untimed : Json → Json
  | .object fields =>
    .object (fields.filter fun field => field.1 != "startedAt" && field.1 != "finishedAt")
  | v => v

/-- Whether times ascend strictly. -/
def ascends : List Instant → Bool
  | s :: t :: rest => s < t && ascends (t :: rest)
  | _ => true

def chunks (trace : List Chunk) : Json := .array (trace.map fun c => untimed c.toJson)

def trace (trace : List Chunk) : Json :=
  .object [("chunks", chunks trace), ("increasing", .bool (ascends (trace.filterMap Chunk.time?)))]

/-- A line of a stream, and whether its only line feed ends it. -/
def line (l : String) : Json :=
  let cs := l.toList
  .array [untimed ((Json.parse? l).getD .null),
    .bool (cs.count '\n' == 1 && cs.getLast? == some '\n')]

def lines (ls : List String) : Json := .array (ls.map line)

/-- What the reader of a sink finds in the stream, if there is one. -/
def drained (s : Sink) : Json :=
  match s.channel with
  | none => .null
  | some c =>
    if c.hungUp then .null
    else .object [("lines", lines c.waiting), ("ended", .bool (!s.writing))]

/-! ## Records -/

def session (s : Session) : Json :=
  .object [("id", .string s.id), ("agent", .string s.agent), ("usage", s.usage.toJson),
    ("total", .ofCount s.usage.total), ("finalized", .bool s.finalizedAt.isSome)]

def stat (s : Usage.Stat) : Json :=
  .object [("event", .string s.key.event), ("usage", s.usage.toJson),
    ("finish", .strings s.finishReasons), ("counter", .ofCount s.counter)]

/-- A saved result, and whether all its times are one. -/
def saved (r : ResultRecord) : Json :=
  .object [("agent", .string r.agent), ("session", .string r.session),
    ("content", .string r.content), ("format", .string r.format),
    ("sameTimes", .bool (r.updatedAt == r.createdAt && r.finalizedAt == some r.createdAt))]

def billed (b : SessionUsage × Usage.Stat) : Json :=
  .object [("session", .string b.1.session), ("agent", .string b.1.agent),
    ("delta", b.1.delta.toJson), ("event", .string b.2.key.event),
    ("finish", .strings b.2.finishReasons), ("counter", .ofCount b.2.counter)]

/-- The tools of a request in the order of their masked names and their descriptions. -/
def offered (tools : List ToolSpec) : List ToolSpec :=
  (tools.map fun s => { s with name := mask s.name }).mergeSort fun a b =>
    a.name < b.name || (a.name == b.name && a.description ≤ b.description)

/-- A request and the milliseconds at which it came. -/
def request (r : Nat × ModelRequest) : Json :=
  .object [("atMs", .ofNat r.1), ("model", .string r.2.model), ("system", .string r.2.system),
    ("messages", .array (r.2.messages.map Message.toJson)),
    ("tools", .array ((offered r.2.tools).map ToolSpec.toJson))]

/-! ## Logs -/

def statusName : StepStatus → String
  | .running => "Running"
  | .success => "Success"
  | .failed => "Failed"
  | .skipped => "Skipped"

def stepLog (l : StepLog) : Json :=
  .object [("step", .string l.step), ("status", .string (statusName l.status)),
    ("error", .ofOption .string l.error), ("ended", .bool l.hasEnded), ("traced", .bool true)]

def stepSummary (s : StepSummary) : Json :=
  .object [("total", .ofNat s.total), ("success", .ofNat s.success), ("failed", .ofNat s.failed),
    ("skipped", .ofNat s.skipped), ("running", .ofNat s.running)]

def log (l : RunLog) : Json :=
  .object [("ok", .bool l.ok), ("flow", .string l.flow), ("session", .string l.session),
    ("agent", .string l.agent), ("errors", .strings l.errors),
    ("steps", .array (l.steps.map stepLog)), ("summary", stepSummary l.summary)]

/-- A log event without the trace that it belongs to. -/
def event (e : Event) : Json :=
  let fields := e.fields.filter fun field => field.1 != "trace_id"
  .object [("level", .string e.level.name),
    ("fields", .object (("message", .string e.message)
      :: fields.map fun (name, value) => (name, .string value)))]

/-! ## Reports -/

def counts (c : RunCounts) : Json :=
  .object [("agentCalls", .ofNat c.agentCalls), ("modelCalls", .ofNat c.modelCalls),
    ("toolCalls", .ofNat c.toolCalls)]

/-- A summary, and whether it belongs to the trace of the log. -/
def summary (s : RunSummary) (l : RunLog) : Json :=
  .object [("flow", .string s.flow), ("session", .string s.session),
    ("succeeded", .bool s.succeeded),
    ("chunks", .array ([s.chunks.flowStart, s.chunks.stepFinish, s.chunks.finalResponse,
      s.chunks.error, s.chunks.total].map .ofNat)),
    ("steps", .array ([s.steps.total, s.steps.success, s.steps.failed, s.steps.skipped,
      s.steps.running].map .ofNat)),
    ("usage", s.usage.toJson), ("error", .ofOption .string s.error),
    ("sameTrace", .bool (s.traceId == l.traceId))]

def outcome : Except FlowError Json → Json
  | .ok value => .object [("ok", value)]
  | .error e => e.toJson

def report (r : RunReport) : List (String × Json) :=
  [("flow", .string r.flow), ("state", r.state.toJson), ("success", .bool r.isSuccess),
    ("result", .ofOption id r.result), ("trace", trace r.trace),
    ("final", .ofOption (fun c => untimed c.toJson) r.finalChunk?), ("stats", counts r.counts),
    ("context", log r.log), ("session", .ofOption session r.session),
    ("summary", summary (.ofReport r) r.log), ("outcome", outcome r.outcome)]

end Ensemble.Rehearsal.Transcript
