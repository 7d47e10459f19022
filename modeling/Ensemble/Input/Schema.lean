import Ensemble.Decimal.Reading
import Ensemble.Definition.Basic
import Ensemble.Json.Reader
import Ensemble.Text.Characters

/-!
# Checking inputs

The input of a request is an object with a value for each declared name; names that are not
declared are ignored. A value that is left out is fine unless it is required, and so is no input at
all if nothing is required.
-/

namespace Ensemble.Input

/-- What a value of a kind must look like, if the given one does not. -/
def mismatch? (kind : InputKind) (value : Json) : Option String :=
  match kind with
  | .number =>
    match value with
    | .number _ => none
    | .string s =>
      if (Decimal.double? (Text.trimChars s.toList)).isSome then none else some "expected a number"
    | _ => some "expected a number"
  | .json =>
    match value with
    | .object _ => none
    | .array _ => none
    | .string s =>
      if (Json.parse? s).isSome then none else some "expected a JSON object, array or JSON string"
    | _ => some "expected a JSON object, array or JSON string"
  | .file =>
    match value with
    | .string _ => none
    | .array items =>
      if items.all fun v => v.string?.isSome then none
      else some "expected a base64 string or a list of them"
    | _ => some "expected a base64 string or a list of them"
  | _ =>
    match value with
    | .object _ => some "expected a scalar value"
    | .array _ => some "expected a scalar value"
    | _ => none

/-- Whether a value is good for a declaration. -/
def check (d : InputDeclaration) (value : Option Json) : Except Invalid Unit :=
  match value with
  | none => if d.required then .error (.missingInput d.name) else .ok ()
  | some .null => if d.required then .error (.missingInput d.name) else .ok ()
  | some value =>
    match mismatch? d.kind value with
    | some reason => .error (.invalidInput d.name reason)
    | none => .ok ()

/-- Checks an input against the declarations, in order. -/
def validate (declarations : List InputDeclaration) (input : Json) : Except Invalid Unit :=
  match input with
  | .object fields => declarations.forM fun d => check d (fields.lookup d.name)
  | .null =>
    if declarations.all fun d => !d.required then .ok ()
    else .error (.invalidRequest "input must be a JSON object")
  | _ => .error (.invalidRequest "input must be a JSON object")

end Ensemble.Input
