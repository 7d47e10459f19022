import Ensemble.Json.Printer
import Ensemble.Decode.Source

/-!
# Messages

What agents and models tell each other: texts, images, tool calls and the results of tools, in
order, under a role.
-/

namespace Ensemble

inductive Role
  | system
  | user
  | assistant
  | tool
deriving DecidableEq, Repr

/-- A part of a message. Images are base64 texts; arguments and results are free values. -/
inductive Part
  | text (text : String)
  | image (mime data : String)
  | toolCall (id name : String) (args : Json)
  | toolResult (id name : String) (result : Json)
deriving Repr

structure Message where
  role : Role
  content : List Part
deriving Repr

def Role.name : Role → String
  | .system => "system"
  | .user => "user"
  | .assistant => "assistant"
  | .tool => "tool"

namespace Part

def text? : Part → Option String
  | .text s => some s
  | _ => none

def isImage : Part → Bool
  | .image .. => true
  | _ => false

def isToolResult : Part → Bool
  | .toolResult .. => true
  | _ => false

def toJson : Part → Json
  | .text s => .object [("type", .string "text"), ("text", .string s)]
  | .image mime data =>
    .object [("type", .string "image"), ("mimeType", .string mime), ("image", .string data)]
  | .toolCall id name args =>
    .object [("type", .string "toolCall"), ("toolCallId", .string id), ("toolName", .string name),
      ("args", args)]
  | .toolResult id name result =>
    .object [("type", .string "toolResult"), ("toolCallId", .string id),
      ("toolName", .string name), ("result", result)]

end Part

namespace Message

def user (content : List Part) : Message := { role := .user, content }

/-- The text parts, a line each. -/
def text (m : Message) : String := "\n".intercalate (m.content.filterMap Part.text?)

def imageCount (m : Message) : Nat := m.content.countP Part.isImage

/-- Changes the text parts and nothing else. -/
def mapText (f : String → String) (m : Message) : Message :=
  { m with
    content := m.content.map fun
      | .text s => .text (f s)
      | part => part }

def toJson (m : Message) : Json :=
  .object [("role", .string m.role.name), ("content", .array (m.content.map Part.toJson))]

end Message

/-! ## Reading -/

section

open Decode

variable {ν : Type} [Source ν]

def Role.read? (node : ν) : Option Role := do
  match ← Source.choice? node with
  | "system" => some .system
  | "user" => some .user
  | "assistant" => some .assistant
  | "tool" => some .tool
  | _ => none

namespace Part

/-- The parts by name, in the order in which numbers count them. -/
def variants : List (List String) := [["text"], ["image"], ["toolCall"], ["toolResult"]]

/-- The part of a given variant. -/
def ofBody? (variant : Nat) (body : Content) : Option Part :=
  match variant with
  | 0 => do
    let fields ← record? 1 body
    let text ← fields.required? 0 ["text"] Source.text?
    return .text text
  | 1 => do
    let fields ← record? 2 body
    let mime ← fields.required? 0 ["mimeType"] Source.text?
    let data ← fields.required? 1 ["image"] Source.text?
    return .image mime data
  | 2 => do
    let fields ← record? 3 body
    let id ← fields.required? 0 ["toolCallId"] Source.text?
    let name ← fields.required? 1 ["toolName"] Source.text?
    let args ← fields.required? 2 ["args"] Source.free?
    return .toolCall id name args
  | 3 => do
    let fields ← record? 3 body
    let id ← fields.required? 0 ["toolCallId"] Source.text?
    let name ← fields.required? 1 ["toolName"] Source.text?
    let result ← fields.required? 2 ["result"] Source.free?
    return .toolResult id name result
  | _ => none

end Part

def Part.read? (node : ν) : Option Part := do
  let (variant, body) ← tagged? Part.variants node
  Part.ofBody? variant body

def Message.read? (node : ν) : Option Message := do
  let fields ← record? 2 node
  let role ← fields.required? 0 ["role"] Role.read?
  let content ← fields.required? 1 ["content"] (list? Part.read?)
  return { role, content }

end

end Ensemble
