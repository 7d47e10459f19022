import Ensemble.Json.Printer
import Ensemble.Text.Characters

/-!
# Request bodies

A request says in its body how it wants to be answered, which flow it asks for, and what its input
is. Everything may be left out. The fields of an object are looked at in the order of their names,
so of two faults the one in the earlier name is reported; a list stands for the fields in their
usual order.
-/

namespace Ensemble

/-- Whether the trace is streamed or the result is answered at the end. -/
inductive OutputMode
  | stream
  | buffer
deriving DecidableEq, Repr

inductive ExecMode
  | sync
  | async
deriving DecidableEq, Repr

def OutputMode.name : OutputMode → String
  | .stream => "stream"
  | .buffer => "buffer"

def ExecMode.name : ExecMode → String
  | .sync => "sync"
  | .async => "async"

structure Body where
  outputMode : OutputMode
  execMode : ExecMode
  flow : Option String
  input : Json
deriving Repr

/-- Why a body cannot be read. -/
inductive BodyFault
  | wrongType (found : Json) (expected : String)
  | unknownVariant (name : String) (expected : List String)
  | notSingle
  | tooLong (length : Nat)
deriving Repr

namespace BodyFault

/-- What a value is called. -/
def describe : Json → String
  | .null => "null"
  | .bool b => s!"boolean `{b}`"
  | .number (.int i) => s!"integer `{(Json.number (.int i)).render}`"
  | .number (.double bits) => s!"floating point `{(Json.number (.double bits)).render}`"
  | .string s => s!"string {Text.quote s}"
  | .array _ => "sequence"
  | .object _ => "map"

/-- Names of which one was expected. -/
def oneOf (names : List String) : String :=
  match names.map fun name => s!"`{name}`" with
  | [a] => a
  | [a, b] => s!"{a} or {b}"
  | names => "one of " ++ ", ".intercalate names

def message : BodyFault → String
  | .wrongType found expected => s!"invalid type: {describe found}, expected {expected}"
  | .unknownVariant name expected => s!"unknown variant `{name}`, expected {oneOf expected}"
  | .notSingle => "invalid value: map, expected map with a single key"
  | .tooLong length => s!"invalid length {length}, expected fewer elements in array"

end BodyFault

namespace Body

def default : Body := { outputMode := .stream, execMode := .sync, flow := none, input := .null }

/-! ## Fields -/

/-- One of some names, each with what it means; an object with a null under the name will do. -/
def choice {α : Type} (names : List (String × α)) (v : Json) : Except BodyFault α := do
  let (name, value) ← match v with
    | .string s => pure (s, Json.null)
    | .object [(key, value)] => pure (key, value)
    | .object _ => throw .notSingle
    | v => throw (.wrongType v "string or map")
  match names.lookup name with
  | none => throw (.unknownVariant name (names.map Prod.fst))
  | some a => if value.isNull then return a else throw (.wrongType value "unit")

def readOutputMode (b : Body) (v : Json) : Except BodyFault Body := do
  let outputMode ← choice [("stream", .stream), ("buffer", .buffer), ("buffered", .buffer)] v
  return { b with outputMode }

def readExecMode (b : Body) (v : Json) : Except BodyFault Body := do
  return { b with execMode := ← choice [("sync", .sync), ("async", .async)] v }

def readFlow (b : Body) (v : Json) : Except BodyFault Body :=
  match v with
  | .null => .ok { b with flow := none }
  | .string s => .ok { b with flow := some s }
  | v => .error (.wrongType v "a string")

def readInput (b : Body) (v : Json) : Except BodyFault Body := .ok { b with input := v }

def readField (b : Body) (field : String × Json) : Except BodyFault Body :=
  match field with
  | ("outputMode", v) => b.readOutputMode v
  | ("execMode", v) => b.readExecMode v
  | ("flow", v) => b.readFlow v
  | ("input", v) => b.readInput v
  | _ => .ok b

/-- Reads as many fields as there are values. -/
def readItems (b : Body) : List (Body → Json → Except BodyFault Body) → List Json
    → Except BodyFault Body
  | read :: reads, v :: items => do readItems (← read b v) reads items
  | _, _ => .ok b

/-- Reads a body, of which the fields are sorted by name. -/
def read (v : Json) : Except BodyFault Body :=
  match v with
  | .null => .ok default
  | .object fields => fields.foldlM readField default
  | .array items => do
    let b ← readItems default [readOutputMode, readExecMode, readFlow, readInput] items
    if 4 < items.length then throw (.tooLong items.length)
    return b
  | v => .error (.wrongType v "struct ExecBody")

end Body

end Ensemble
