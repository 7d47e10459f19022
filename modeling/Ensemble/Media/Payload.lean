import Ensemble.Media.Base64
import Ensemble.Text.Characters
import Ensemble.Text.Utf8

/-!
# Payloads

Files come as base64 texts, bare or as data URLs. Blanks may stand anywhere in the base64 part. A
URL may name the media type; without a name it is told from the first bytes.
-/

namespace Ensemble

structure Payload where
  mime : String
  base64 : String
  bytes : List UInt8
deriving DecidableEq, Repr

inductive PayloadFault
  | noPayload
  | notBase64
  | empty
  | base64 (fault : Base64.Fault)
deriving DecidableEq, Repr

def PayloadFault.message : PayloadFault → String
  | .noPayload => "data URL without payload"
  | .notBase64 => "data URL is not base64 encoded"
  | .empty => "empty payload"
  | .base64 fault => fault.message

namespace Payload

/-- The media type that bytes look like. -/
def sniff (bytes : List UInt8) : String :=
  let starts (first : List UInt8) : Bool := first.isPrefixOf bytes
  if starts [0x89, 0x50, 0x4E, 0x47, 0x0D, 0x0A, 0x1A, 0x0A] then "image/png"
  else if starts [0xFF, 0xD8, 0xFF] then "image/jpeg"
  else if starts [0x47, 0x49, 0x46, 0x38, 0x37, 0x61] || starts [0x47, 0x49, 0x46, 0x38, 0x39, 0x61]
    then "image/gif"
  else if starts [0x52, 0x49, 0x46, 0x46] && [0x57, 0x45, 0x42, 0x50].isPrefixOf (bytes.drop 8) then
    "image/webp"
  else if starts [0x25, 0x50, 0x44, 0x46, 0x2D] then "application/pdf"
  else if starts [0x50, 0x4B, 0x03, 0x04] then "application/zip"
  else
    match Text.decode bytes with
    | .ok _ => "text/plain"
    | .error _ => "application/octet-stream"

def isImage (p : Payload) : Bool := "image/".toList.isPrefixOf p.mime.toList

def isText (p : Payload) : Bool :=
  "text/".toList.isPrefixOf p.mime.toList || p.mime = "application/json"
    || p.mime = "application/xml"

/-- The text after a beginning, if it has that beginning. -/
def afterStart? (start : List Char) (cs : List Char) : Option (List Char) :=
  if start.isPrefixOf cs then some (cs.drop start.length) else none

/-- The text before an ending, if it has that ending. -/
def beforeEnd? (ending : List Char) (cs : List Char) : Option (List Char) :=
  (afterStart? ending.reverse cs.reverse).map List.reverse

/-- The media type that a text names, if any, and the part with the content. -/
def splitHeader (cs : List Char) : Except PayloadFault (Option String × List Char) :=
  match afterStart? "data:".toList cs with
  | none => .ok (none, cs)
  | some rest =>
    match rest.dropWhile (· ≠ ',') with
    | [] => .error .noPayload
    | _ :: content =>
      match beforeEnd? ";base64".toList (rest.takeWhile (· ≠ ',')) with
      | none => .error .notBase64
      | some mime => .ok (if mime.isEmpty then none else some (String.ofList mime), content)

/-- The content of a file. -/
def decode (text : String) : Except PayloadFault Payload := do
  let (mime?, content) ← splitHeader (Text.trimChars text.toList)
  let base64 := String.ofList (content.filter fun c => !Text.isBlank c)
  if base64.isEmpty then throw .empty
  match Base64.decode (Text.encode base64) with
  | .error fault => throw (.base64 fault)
  | .ok bytes => return { mime := mime?.getD (sniff bytes), base64, bytes }

end Payload

end Ensemble
