import Ensemble.Decode.Source
import Ensemble.Json.Printer
import Ensemble.Json.Reader
import Ensemble.Rehearsal.Model

/-!
# Reading scripts of models

The replies of a rehearsal are read from the names of the models and a list of replies for each.
Whatever a reply leaves out, or gives as null, is as in a plain reply. Bytes are written as two
hexadecimal digits each, and read in either case.
-/

namespace Ensemble.Rehearsal

open Decode

section

variable {ν : Type} [Source ν]

/-- A field that may be left out or null. -/
def optionalField? {α : Type} (fields : Fields ν) (place : Nat) (name : String)
    (read : ν → Option α) (default : α) : Option α := do
  return (← fields.withDefault? place [name] (option? read) none).getD default

def readUsage? (node : ν) : Option Tokens := do
  match ← list? Source.count? node with
  | [prompt, completion] => return { prompt, completion }
  | _ => none

def ScriptedCall.read? (node : ν) : Option ScriptedCall := do
  let fields ← record? 4 node
  let id ← optionalField? fields 0 "id" Source.text? ""
  let tool ← optionalField? fields 1 "tool" Source.text? ""
  let args ← optionalField? fields 2 "args" Source.free? .null
  let options ← optionalField? fields 3 "options" (fun v => (Source.free? v).map some) none
  return { id, tool, args, options }

/-- The failure of a model of some kind. -/
def modelError (kind message : String) : ModelError :=
  match kind with
  | "UnknownModel" => .unknownModel message
  | "InvalidResponse" => .invalidResponse message
  | _ => .request message

/-- The failure of a tool of some kind. -/
def toolError (kind message : String) : ToolError :=
  match kind with
  | "NotFound" => .notFound message
  | "InvalidArguments" => .invalidArguments message
  | _ => .execution message

def readModelError? (node : ν) : Option ModelError := do
  let fields ← record? 2 node
  let kind ← optionalField? fields 0 "kind" Source.text? ""
  let message ← optionalField? fields 1 "message" Source.text? ""
  return modelError kind message

def Reply.read? (node : ν) : Option Reply := do
  let fields ← record? 7 node
  let plain := Reply.plain
  let delay ← optionalField? fields 0 "delayMs" Source.count? 0
  let crashes ← optionalField? fields 1 "panic" Source.flag? plain.crashes
  let error ← optionalField? fields 2 "error" (fun v => (readModelError? v).map some) none
  let text ← optionalField? fields 3 "text" (fun v => (Source.text? v).map some) none
  let toolCalls ← optionalField? fields 4 "toolCalls" (list? ScriptedCall.read?) plain.toolCalls
  let usage ← optionalField? fields 5 "usage" readUsage? plain.usage
  let finishReason ← optionalField? fields 6 "finishReason" Source.text? plain.finishReason
  return { delay := delay.toNat, crashes, error, text, toolCalls, usage, finishReason }

def ScriptedModel.read? (node : ν) : Option ScriptedModel := do
  match ← Source.fields? node with
  | .positional _ => none
  | .named entries =>
    let replies ← entries.mapM fun (key, v) =>
      match key with
      | .name model => (list? Reply.read? v).map fun replies => (model, replies)
      | .index _ => none
    return { replies }

end

/-! ## Bytes as digits -/

open Json (hexDigit)
open Json.Reader (hexValue?)

/-- The digits of bytes. -/
def hex (bytes : List UInt8) : String :=
  String.ofList (bytes.flatMap fun b => [hexDigit (b.toNat / 16), hexDigit (b.toNat % 16)])

def bytesOfHexChars? : List Char → Option (List UInt8)
  | [] => some []
  | [_] => none
  | a :: b :: rest => do
    let high ← hexValue? a
    let low ← hexValue? b
    let bytes ← bytesOfHexChars? rest
    return UInt8.ofNat (high * 16 + low) :: bytes

/-- The bytes that digits stand for. -/
def bytesOfHex? (s : String) : Option (List UInt8) := bytesOfHexChars? s.toList

end Ensemble.Rehearsal
