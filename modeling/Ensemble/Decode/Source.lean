import Ensemble.Decimal.Notation
import Ensemble.Json.Document

/-!
# Reading records

Stored definitions, messages and traces are read from JSON texts, JSON values and YAML texts.
`Source` says what a decoder may ask of a node, whatever the format; `Fields` looks a field up by
its names. A field that occurs twice, also under two of its names, makes the record unreadable, and
unknown fields are passed over. A list may stand for a record, with the fields in declaration order.

A variant that is told by a tag among its fields can only be read when the tag is known, so its
fields are set aside as `Content` first. Within set-aside data a number may stand for the name of a
field or of a variant.
-/

namespace Ensemble

/-- How a node names a field or a variant: by its name or by its number. -/
inductive Decode.Key
  | name (s : String)
  | index (n : Nat)
deriving DecidableEq, Repr

/-- Data set aside until its tag has been read. Keys can be any data. -/
inductive Content
  | null
  | bool (b : Bool)
  | number (n : Number)
  | string (s : String)
  | list (items : List Content)
  | record (fields : List (Content × Content))
deriving Inhabited, Repr

namespace Content

/-- Whether a key of a record is the name of its tag. -/
def isTagKey : Content → Bool
  | .string s => s == "type"
  | _ => false

/-- Splits a tagged variant into its tag and the other fields. -/
def untag? : Content → Option (Content × Content)
  | .list (tag :: items) => some (tag, .list items)
  | .record fields =>
    match fields.filter fun field => field.1.isTagKey with
    | [(_, tag)] => some (tag, .record (fields.filter fun field => !field.1.isTagKey))
    | _ => none
  | _ => none

/-- The name or the number that a set-aside node is. -/
def key? : Content → Option Decode.Key
  | .string s => some (.name s)
  | .number n => n.unsigned?.map fun n => .index n.toNat
  | _ => none

end Content

namespace Decode

/-- The fields of a record as a node gives them. -/
inductive Fields (ν : Type)
  | named (entries : List (Key × ν))
  | positional (items : List ν)

class Source (ν : Type) where
  text? : ν → Option String
  flag? : ν → Option Bool
  /-- An unsigned integer of 64 bits. -/
  count? : ν → Option UInt64
  /-- Tells a missing value from a given one. -/
  optional? : ν → Option (Option ν)
  items? : ν → Option (List ν)
  fields? : ν → Option (Fields ν)
  /-- The name of a variant without fields. -/
  choice? : ν → Option String
  free? : ν → Option Json
  /-- The tag of a variant and the rest of the node. -/
  untag? : ν → Option (Key × Content)

/-! ## Fields -/

/-- Whether a key means the field at a place, which has the given names. -/
def Key.isFor (place : Nat) (names : List String) : Key → Bool
  | .name s => names.contains s
  | .index n => n == place

namespace Fields

variable {ν α : Type}

/-- The field at a place, under any of its names: a failure if it occurs twice. -/
def find? (fields : Fields ν) (place : Nat) (names : List String) : Option (Option ν) :=
  match fields with
  | .positional items => some items[place]?
  | .named entries =>
    match entries.filter fun entry => Key.isFor place names entry.1 with
    | [] => some none
    | [(_, node)] => some (some node)
    | _ => none

def required? (fields : Fields ν) (place : Nat) (names : List String) (read : ν → Option α) :
    Option α := do
  let node ← fields.find? place names
  read (← node)

def withDefault? (fields : Fields ν) (place : Nat) (names : List String) (read : ν → Option α)
    (default : α) : Option α := do
  match ← fields.find? place names with
  | none => some default
  | some node => read node

end Fields

section

variable {ν α : Type} [Source ν]

/-- The fields of a record with `size` fields; a list may not be longer. -/
def record? (size : Nat) (node : ν) : Option (Fields ν) := do
  let fields ← Source.fields? node
  match fields with
  | .positional items => if items.length ≤ size then some fields else none
  | .named _ => some fields

/-- The number of a variant, which its tag gives or names, and its fields. Variants are counted in
order and may have several names. -/
def tagged? (variants : List (List String)) (node : ν) : Option (Nat × Content) := do
  let (tag, body) ← Source.untag? node
  let variant ← match tag with
    | .name s => variants.findIdx? (·.contains s)
    | .index n => some n
  return (variant, body)

/-- A list whose items are all read the same way. -/
def list? (read : ν → Option α) (node : ν) : Option (List α) := do
  (← Source.items? node).mapM read

/-- A value that may be left out or null. -/
def option? (read : ν → Option α) (node : ν) : Option (Option α) := do
  match ← Source.optional? node with
  | none => some none
  | some node => (read node).map some

end

end Decode

/-! ## Documents as sources -/

namespace Document

mutual

def content? : Document → Option Content
  | .null => some .null
  | .bool b => some (.bool b)
  | .number n => some (.number n)
  | .string s => some (.string s)
  | .array items => (contentItems? items).map .list
  | .object fields => (contentFields? fields).map .record
  | .unreadable => none

def contentItems? : List Document → Option (List Content)
  | [] => some []
  | d :: rest => do
    let c ← d.content?
    let rest ← contentItems? rest
    return c :: rest

def contentFields? : List (Option String × Document) → Option (List (Content × Content))
  | [] => some []
  | (key, d) :: rest => do
    let key ← key
    let c ← d.content?
    let rest ← contentFields? rest
    return (.string key, c) :: rest

end

instance : Decode.Source Document where
  text?
    | .string s => some s
    | _ => none
  flag?
    | .bool b => some b
    | _ => none
  count?
    | .number n => n.unsigned?
    | _ => none
  optional?
    | .null => some none
    | d => some (some d)
  items?
    | .array items => some items
    | _ => none
  fields?
    | .array items => some (.positional items)
    | .object fields =>
      (fields.mapM fun (entry : Option String × Document) =>
        entry.1.map fun key => (Decode.Key.name key, entry.2)).map .named
    | _ => none
  choice?
    | .string s => some s
    | .object [(some key, .null)] => some key
    | _ => none
  free? := free?
  untag? d := do
    match ← (← d.content?).untag? with
    | (.string s, body) => some (.name s, body)
    | _ => none

end Document

/-! ## Content as a source -/

namespace Content

mutual

def free? : Content → Option Json
  | .null => some .null
  | .bool b => some (.bool b)
  | .number (.int i) => some (.number (.int i))
  | .number (.double bits) =>
    some (if Decimal.isFinite bits then .number (.double bits) else .null)
  | .string s => some (.string s)
  | .list items => (freeItems? items).map .array
  | .record fields => (freeFields? fields).map fun fields => .object (Table.ofList fields)

def freeItems? : List Content → Option (List Json)
  | [] => some []
  | c :: rest => do
    let v ← c.free?
    let rest ← freeItems? rest
    return v :: rest

def freeFields? : List (Content × Content) → Option (List (String × Json))
  | [] => some []
  | (.string key, c) :: rest => do
    let v ← c.free?
    let rest ← freeFields? rest
    return (key, v) :: rest
  | _ => none

end

instance : Decode.Source Content where
  text?
    | .string s => some s
    | _ => none
  flag?
    | .bool b => some b
    | _ => none
  count?
    | .number n => n.unsigned?
    | _ => none
  optional?
    | .null => some none
    | c => some (some c)
  items?
    | .list items => some items
    | _ => none
  fields?
    | .list items => some (.positional items)
    | .record fields =>
      (fields.mapM fun (entry : Content × Content) =>
        entry.1.key?.map fun key => (key, entry.2)).map .named
    | _ => none
  choice?
    | .string s => some s
    | .record [(.string key, .null)] => some key
    | .record [(.string key, .record [])] => some key
    | _ => none
  free? := free?
  untag? c := do
    let (tag, body) ← c.untag?
    return (← tag.key?, body)

mutual

/-- How deeply lists and records are nested. -/
def depth : Content → Nat
  | .list items => 1 + depthItems items
  | .record fields => 1 + depthFields fields
  | _ => 0

def depthItems : List Content → Nat
  | [] => 0
  | c :: rest => max c.depth (depthItems rest)

def depthFields : List (Content × Content) → Nat
  | [] => 0
  | (_, c) :: rest => max c.depth (depthFields rest)

end

end Content

end Ensemble
