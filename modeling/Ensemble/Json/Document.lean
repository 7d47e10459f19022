import Ensemble.Json.Basic

/-!
# Documents

What a JSON text says before anyone asks for a value. Some parts of a text may be passed over but
not used: a string or key with half of a surrogate pair, a number beyond all doubles, an array or
object that is nested too deeply. They are `unreadable`, and only reading them is an error. The
fields of an object are kept in order with their repetitions.
-/

namespace Ensemble

inductive Document
  | null
  | bool (b : Bool)
  | number (n : Number)
  | string (s : String)
  | array (items : List Document)
  | object (fields : List (Option String × Document))
  | unreadable
deriving Inhabited, Repr

namespace Document

mutual

/-- The free value of a document, unless a part of it is unreadable. -/
def free? : Document → Option Json
  | .null => some .null
  | .bool b => some (.bool b)
  | .number n => some (.number n)
  | .string s => some (.string s)
  | .array items => (freeItems? items).map .array
  | .object fields => (freeFields? fields).map fun fields => .object (Table.ofList fields)
  | .unreadable => none

def freeItems? : List Document → Option (List Json)
  | [] => some []
  | d :: rest => do
    let v ← d.free?
    let rest ← freeItems? rest
    return v :: rest

def freeFields? : List (Option String × Document) → Option (List (String × Json))
  | [] => some []
  | (key, d) :: rest => do
    let key ← key
    let v ← d.free?
    let rest ← freeFields? rest
    return (key, v) :: rest

end

mutual

/-- A value as the document that its text would be. -/
def ofJson : Json → Document
  | .null => .null
  | .bool b => .bool b
  | .number n => .number n
  | .string s => .string s
  | .array items => .array (ofItems items)
  | .object fields => .object (ofFields fields)

def ofItems : List Json → List Document
  | [] => []
  | v :: rest => ofJson v :: ofItems rest

def ofFields : List (String × Json) → List (Option String × Document)
  | [] => []
  | (k, v) :: rest => (some k, ofJson v) :: ofFields rest

end

end Document

end Ensemble
