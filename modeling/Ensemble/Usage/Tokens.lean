import Ensemble.Decode.Source

/-!
# Token counts

Models charge tokens for what they read and for what they write. Counts have 64 bits and stay at
their largest value once they reach it, so a sum does not depend on the order of its parts.
-/

namespace Ensemble

/-- The sum of two counts, or the largest count. -/
def saturatingAdd (a b : UInt64) : UInt64 :=
  UInt64.ofNat (min (a.toNat + b.toNat) (UInt64.size - 1))

/-- Tokens of the messages that a model read, and of those that it wrote. -/
structure Tokens where
  prompt : UInt64
  completion : UInt64
deriving DecidableEq, Repr, Inhabited

namespace Tokens

def zero : Tokens := { prompt := 0, completion := 0 }

def add (a b : Tokens) : Tokens :=
  { prompt := saturatingAdd a.prompt b.prompt
    completion := saturatingAdd a.completion b.completion }

instance : Add Tokens := ⟨add⟩

def sum (xs : List Tokens) : Tokens := xs.foldl add zero

def total (t : Tokens) : UInt64 := saturatingAdd t.prompt t.completion

def isEmpty (t : Tokens) : Bool := t.total == 0

def toJson (t : Tokens) : Json :=
  .object [("promptTokens", .ofCount t.prompt), ("completionTokens", .ofCount t.completion)]

open Decode in
def read? {ν : Type} [Source ν] (node : ν) : Option Tokens := do
  let fields ← record? 2 node
  let prompt ← fields.required? 0 ["promptTokens"] Source.count?
  let completion ← fields.required? 1 ["completionTokens"] Source.count?
  return { prompt, completion }

end Tokens

end Ensemble
