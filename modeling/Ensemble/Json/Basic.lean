/-!
# JSON values

A value keeps the fields of an object as a list, so that a record can be written with its fields in
order. The free values that callers, models and tools exchange are *canonical*: the keys of every
object are strictly ascending. `Json.canonical` brings a value into that form; where a key occurs
twice the later field wins.

Lists of entries with strictly ascending keys are used for other data too. `Table.insert` keeps such
a list one, and a later value of a key takes the place of an earlier one.
-/

namespace Ensemble

/-! ## Tables -/

namespace Table

variable {α : Type}

/-- Puts a value at its place among ascending keys, over an older one of the same key. -/
def insert (key : String) (value : α) : List (String × α) → List (String × α)
  | [] => [(key, value)]
  | (k, v) :: rest =>
    if key < k then (key, value) :: (k, v) :: rest
    else if key = k then (key, value) :: rest
    else (k, v) :: insert key value rest

/-- A table with further entries, which win over its own. -/
def extend (table entries : List (String × α)) : List (String × α) :=
  entries.foldl (fun table (key, value) => insert key value table) table

/-- The table of the last value of each key. -/
def ofList (entries : List (String × α)) : List (String × α) := extend [] entries

def contains (key : String) (table : List (String × α)) : Bool := (table.lookup key).isSome

end Table

/-! ## Values -/

/-- An integer within the bounds of 64 bits, or the bits of a finite double. -/
inductive Number
  | int (value : Int)
  | double (bits : UInt64)
deriving DecidableEq, Repr, Inhabited

/-- The number as an unsigned one of 64 bits. -/
def Number.unsigned? : Number → Option UInt64
  | .int (.ofNat n) => if n < UInt64.size then some (UInt64.ofNat n) else none
  | _ => none

inductive Json
  | null
  | bool (b : Bool)
  | number (n : Number)
  | string (s : String)
  | array (items : List Json)
  | object (fields : List (String × Json))
deriving Inhabited, Repr

namespace Json

/-- An unsigned number. -/
def ofNat (n : Nat) : Json := .number (.int n)

def ofCount (n : UInt64) : Json := ofNat n.toNat

def ofInt (i : Int) : Json := .number (.int i)

def ofOption {α : Type} (f : α → Json) : Option α → Json
  | none => .null
  | some a => f a

def strings (xs : List String) : Json := .array (xs.map .string)

/-! ## Fields -/

mutual

/-- Sorts the fields of all objects in a value. -/
def canonical : Json → Json
  | .array items => .array (canonicalItems items)
  | .object fields => .object (Table.ofList (canonicalFields fields))
  | v => v

def canonicalItems : List Json → List Json
  | [] => []
  | v :: rest => v.canonical :: canonicalItems rest

def canonicalFields : List (String × Json) → List (String × Json)
  | [] => []
  | (k, v) :: rest => (k, v.canonical) :: canonicalFields rest

end

/-- The field of an object. -/
def field? (v : Json) (key : String) : Option Json :=
  match v with
  | .object fields => fields.lookup key
  | _ => none

def isNull : Json → Bool
  | .null => true
  | _ => false

def string? : Json → Option String
  | .string s => some s
  | _ => none

def bool? : Json → Option Bool
  | .bool b => some b
  | _ => none

def items? : Json → Option (List Json)
  | .array items => some items
  | _ => none

def count? : Json → Option UInt64
  | .number n => n.unsigned?
  | _ => none

end Json

end Ensemble
