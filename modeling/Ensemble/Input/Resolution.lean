import Ensemble.Decode.Source
import Ensemble.Definition.Basic
import Ensemble.Json.Printer
import Ensemble.Media.Payload

/-!
# Resolving inputs

A checked input is split into variables, which are texts, and files. Of a file an image stays as it
is and a text is read; any other content is handed to an extractor, if there is one. A file that
cannot be used is reported under its input and does not touch the others.
-/

namespace Ensemble

inductive ResolvedFile
  | image (mime data : String)
  | text (mime text : String)
deriving DecidableEq, Repr

namespace ResolvedFile

def toJson : ResolvedFile → Json
  | .image mime data => .object [("image", .string data), ("mime", .string mime)]
  | .text mime content => .object [("text", .string content), ("mime", .string mime)]

open Decode in
def read? {ν : Type} [Source ν] (node : ν) : Option ResolvedFile := do
  let fields ← record? 3 node
  let mime ← fields.required? 0 ["mime"] Source.text?
  match ← fields.withDefault? 1 ["image"] (option? Source.text?) none with
  | some data => return .image mime data
  | none => return .text mime (← fields.required? 2 ["text"] Source.text?)

end ResolvedFile

structure ResolvedInputs where
  values : List (String × String)
  files : List (String × List ResolvedFile)
  errors : List ExtractionError
deriving DecidableEq, Repr

/-- Takes a text out of the bytes of a media type, or says why it cannot. -/
abbrev Extractor := String → List UInt8 → Except String String

namespace ResolvedInputs

def empty : ResolvedInputs := { values := [], files := [], errors := [] }

def isFile (r : ResolvedInputs) (name : String) : Bool := Table.contains name r.files

end ResolvedInputs

namespace Input

/-- The file of one payload. -/
def resolveFile (extractor : Option Extractor) (payload : String) :
    Except ExtractionFault ResolvedFile :=
  match Payload.decode payload with
  | .error fault => .error (.decode fault.message)
  | .ok p =>
    if p.isImage then .ok (.image p.mime p.base64)
    else if p.isText then
      match Text.decode p.bytes with
      | .ok cs => .ok (.text p.mime (String.ofList cs))
      | .error fault => .error (.decode fault.message)
    else
      match extractor with
      | none => .error (.unsupported p.mime)
      | some extract =>
        match extract p.mime p.bytes with
        | .ok text => .ok (.text p.mime text)
        | .error reason => .error (.failed reason)

/-- The payloads of a value. -/
def payloads : Json → List String
  | .string s => [s]
  | .array items => items.filterMap Json.string?
  | _ => []

/-- The files of an input and the errors of the payloads that gave none. -/
def resolveFiles (extractor : Option Extractor) (name : String) :
    List String → List ResolvedFile × List ExtractionError
  | [] => ([], [])
  | payload :: rest =>
    let (files, errors) := resolveFiles extractor name rest
    match resolveFile extractor payload with
    | .ok file => (file :: files, errors)
    | .error fault => (files, { input := name, fault } :: errors)

/-- Adds what one declared value gives. -/
def resolveValue (extractor : Option Extractor) (r : ResolvedInputs) (d : InputDeclaration)
    (value : Json) : ResolvedInputs :=
  if d.kind = .file then
    let (files, errors) := resolveFiles extractor d.name (payloads value)
    { r with
      files := if files.isEmpty then r.files else Table.insert d.name files r.files
      errors := r.errors ++ errors }
  else { r with values := Table.insert d.name value.plain r.values }

/-- Splits an input by its declarations. Values that are left out or null give nothing. -/
def resolve (extractor : Option Extractor) (declarations : List InputDeclaration) (input : Json) :
    ResolvedInputs :=
  declarations.foldl (fun r d =>
    match input.field? d.name with
    | none => r
    | some .null => r
    | some value => resolveValue extractor r d value) .empty

end Input

end Ensemble
