import Ensemble.Time.Reading
import Ensemble.Usage.Tokens

/-!
# Usage statistics

Model calls are counted per event name and hour. A quota is judged on totals over calendar months,
which are plain sums: unlike the records they do not stay at the largest count but start again
after it.
-/

namespace Ensemble.Usage

/-- The hour of a calendar that an event is counted in. -/
structure Key where
  event : String
  year : Int
  month : Nat
  day : Nat
  hour : Nat
deriving DecidableEq, Repr

/-- Keys in the order of their fields. -/
def Key.before (a b : Key) : Bool :=
  a.event < b.event || (a.event = b.event &&
    (a.year < b.year || (a.year = b.year &&
      (a.month < b.month || (a.month = b.month &&
        (a.day < b.day || (a.day = b.day && a.hour < b.hour)))))))

structure Stat where
  key : Key
  usage : Tokens
  finishReasons : List String
  createdAt : Instant
  counter : UInt64
deriving DecidableEq, Repr

/-- The items of both lists, those of the second one only if they are new. -/
def union (xs ys : List String) : List String :=
  ys.foldl (fun xs y => if xs.contains y then xs else xs ++ [y]) xs

namespace Stat

/-- The record of one event. -/
def ofEvent (event : String) (usage : Tokens) (finishReason : Option String) (time : Instant) :
    Stat :=
  { key := { event, year := time.year, month := time.month, day := time.day, hour := time.hour }
    usage, finishReasons := finishReason.toList, createdAt := time, counter := 1 }

/-- Adds a record of the same hour. -/
def merge (s t : Stat) : Stat :=
  { s with
    usage := s.usage + t.usage
    counter := saturatingAdd s.counter t.counter
    finishReasons := union s.finishReasons t.finishReasons
    createdAt := s.createdAt.earliest t.createdAt }

def toJson (s : Stat) : Json :=
  .object [("eventName", .string s.key.event), ("promptTokens", .ofCount s.usage.prompt),
    ("completionTokens", .ofCount s.usage.completion),
    ("finishReasons", .strings s.finishReasons), ("createdAt", .string s.createdAt.render),
    ("createdYear", .ofInt s.key.year), ("createdMonth", .ofNat s.key.month),
    ("createdDay", .ofNat s.key.day), ("createdHour", .ofNat s.key.hour),
    ("counter", .ofCount s.counter)]

end Stat

/-! ## Totals -/

structure Totals where
  overall : UInt64
  prompt : UInt64
  completion : UInt64
  requests : UInt64
deriving DecidableEq, Repr

namespace Totals

def zero : Totals := { overall := 0, prompt := 0, completion := 0, requests := 0 }

/-- Counts a record. The sums wrap around. -/
def add (t : Totals) (s : Stat) : Totals :=
  { overall := t.overall + (s.usage.prompt + s.usage.completion)
    prompt := t.prompt + s.usage.prompt
    completion := t.completion + s.usage.completion
    requests := t.requests + s.counter }

def toJson (t : Totals) : Json :=
  .object [("overallTokens", .ofCount t.overall), ("promptTokens", .ofCount t.prompt),
    ("completionTokens", .ofCount t.completion), ("requests", .ofCount t.requests)]

open Decode in
def read? {ν : Type} [Source ν] (node : ν) : Option Totals := do
  let fields ← record? 4 node
  let overall ← fields.required? 0 ["overallTokens"] Source.count?
  let prompt ← fields.required? 1 ["promptTokens"] Source.count?
  let completion ← fields.required? 2 ["completionTokens"] Source.count?
  let requests ← fields.required? 3 ["requests"] Source.count?
  return { overall, prompt, completion, requests }

end Totals

/-- The totals of the windows that a quota may be judged on. -/
structure Windows where
  thisMonth : Totals
  lastMonth : Totals
  today : Totals
deriving DecidableEq, Repr

namespace Windows

def zero : Windows := { thisMonth := .zero, lastMonth := .zero, today := .zero }

/-- Counts a record in the windows that its hour belongs to. -/
def add (now : Instant) (w : Windows) (s : Stat) : Windows :=
  let month : Month := { year := s.key.year, month := s.key.month }
  if month = now.inMonth then
    { w with
      thisMonth := w.thisMonth.add s
      today := if s.key.day = now.day then w.today.add s else w.today }
  else if month = now.inMonth.previous then { w with lastMonth := w.lastMonth.add s }
  else w

/-- The windows at an instant, if the calendar has a month before it. -/
def ofStats? (now : Instant) (stats : List Stat) : Option Windows :=
  if now.year = Calendar.firstYear ∧ now.month = 1 then none
  else some (stats.foldl (add now) zero)

def toJson (w : Windows) : Json :=
  .object [("thisMonth", w.thisMonth.toJson), ("lastMonth", w.lastMonth.toJson),
    ("today", w.today.toJson)]

end Windows

end Ensemble.Usage
