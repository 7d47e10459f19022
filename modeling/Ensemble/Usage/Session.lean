import Ensemble.Time.Reading
import Ensemble.Usage.Tokens

/-!
# Sessions

A session adds up the tokens of all model calls of one conversation. Its counts only grow, and the
time of its last change never goes back, whatever the order in which changes arrive.
-/

namespace Ensemble

structure Session where
  id : String
  agent : String
  usage : Tokens
  createdAt : Instant
  updatedAt : Instant
  finalizedAt : Option Instant
deriving DecidableEq, Repr

/-- The tokens of one model call, to be added to a session. -/
structure SessionUsage where
  session : String
  agent : String
  delta : Tokens
  time : Instant
deriving DecidableEq, Repr

namespace Session

def start (id agent : String) (time : Instant) : Session :=
  { id, agent, usage := .zero, createdAt := time, updatedAt := time, finalizedAt := none }

/-- Adds the tokens of a call. -/
def apply (s : Session) (delta : Tokens) (time : Instant) : Session :=
  { s with usage := s.usage + delta, updatedAt := s.updatedAt.latest time }

/-- Marks the session as finished; it may be finished again later. -/
def finalize (s : Session) (time : Instant) : Session :=
  { s with finalizedAt := some time, updatedAt := s.updatedAt.latest time }

/-! ## Notation -/

def toJson (s : Session) : Json :=
  .object ([("id", .string s.id), ("agentId", .string s.agent),
    ("promptTokens", .ofCount s.usage.prompt), ("completionTokens", .ofCount s.usage.completion),
    ("createdAt", .string s.createdAt.render), ("updatedAt", .string s.updatedAt.render)]
    ++ match s.finalizedAt with
      | none => []
      | some t => [("finalizedAt", .string t.render)])

open Decode in
def read? {ν : Type} [Source ν] (node : ν) : Option Session := do
  let instant (node : ν) : Option Instant := do Instant.read? (← Source.text? node)
  let fields ← record? 7 node
  let id ← fields.required? 0 ["id"] Source.text?
  let agent ← fields.required? 1 ["agentId"] Source.text?
  let prompt ← fields.required? 2 ["promptTokens"] Source.count?
  let completion ← fields.required? 3 ["completionTokens"] Source.count?
  let createdAt ← fields.required? 4 ["createdAt"] instant
  let updatedAt ← fields.required? 5 ["updatedAt"] instant
  let finalizedAt ← fields.withDefault? 6 ["finalizedAt"] (option? instant) none
  return { id, agent, usage := { prompt, completion }, createdAt, updatedAt, finalizedAt }

end Session

end Ensemble
