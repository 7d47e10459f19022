import Ensemble.Time.Instant
import Ensemble.Decode.Source

/-!
# Request clocks

The date and time that a caller's request was made at, as three texts. System prompts may name
them.
-/

namespace Ensemble

structure Clock where
  iso : String
  localTime : String
  timezone : String
deriving DecidableEq, Repr

namespace Clock

/-- The clock of a server whose zone is UTC. -/
def ofInstant (t : Instant) : Clock :=
  { iso := t.renderMillis, localTime := t.renderLocal, timezone := "UTC" }

/-- The names that system prompts know the parts by. -/
def entries (c : Clock) : List (String × String) :=
  [("currentDateTimeIso", c.iso), ("currentLocalDateTime", c.localTime),
    ("currentTimezone", c.timezone)]

def toJson (c : Clock) : Json :=
  .object (c.entries.map fun (name, value) => (name, .string value))

open Decode in
def read? {ν : Type} [Source ν] (node : ν) : Option Clock := do
  let fields ← record? 3 node
  let iso ← fields.required? 0 ["currentDateTimeIso"] Source.text?
  let localTime ← fields.required? 1 ["currentLocalDateTime"] Source.text?
  let timezone ← fields.required? 2 ["currentTimezone"] Source.text?
  return { iso, localTime, timezone }

end Clock

end Ensemble
