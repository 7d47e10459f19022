import Ensemble.Usage.Session
import Ensemble.Usage.Stat

/-!
# Stores in memory

Sessions by their ids, usage records by event and hour, saved results and billing reports in the
order in which they came.
-/

namespace Ensemble

/-- A result that an agent has saved. -/
structure ResultRecord where
  agent : String
  session : String
  content : String
  format : String
  createdAt : Instant
  updatedAt : Instant
  finalizedAt : Option Instant
deriving DecidableEq, Repr

namespace ResultRecord

def toJson (r : ResultRecord) : Json :=
  .object ([("agentId", .string r.agent), ("sessionId", .string r.session),
    ("content", .string r.content), ("format", .string r.format),
    ("createdAt", .string r.createdAt.render), ("updatedAt", .string r.updatedAt.render)]
    ++ match r.finalizedAt with
      | none => []
      | some t => [("finalizedAt", .string t.render)])

open Decode in
def read? {ν : Type} [Source ν] (node : ν) : Option ResultRecord := do
  let instant (node : ν) : Option Instant := do Instant.read? (← Source.text? node)
  let fields ← record? 7 node
  let agent ← fields.required? 0 ["agentId"] Source.text?
  let session ← fields.required? 1 ["sessionId"] Source.text?
  let content ← fields.required? 2 ["content"] Source.text?
  let format ← fields.required? 3 ["format"] Source.text?
  let createdAt ← fields.required? 4 ["createdAt"] instant
  let updatedAt ← fields.required? 5 ["updatedAt"] instant
  let finalizedAt ← fields.withDefault? 6 ["finalizedAt"] (option? instant) none
  return { agent, session, content, format, createdAt, updatedAt, finalizedAt }

end ResultRecord

structure Store where
  sessions : List (String × Session)
  /-- At most one record for each key, in the order of the keys. -/
  stats : List Usage.Stat
  results : List ResultRecord
  billed : List (SessionUsage × Usage.Stat)
deriving Repr

namespace Store

def empty : Store := { sessions := [], stats := [], results := [], billed := [] }

/-! ## Sessions -/

def session? (s : Store) (id : String) : Option Session := s.sessions.lookup id

/-- Adds the tokens of a call to its session, which is created if it is new. -/
def recordUsage (u : SessionUsage) (s : Store) : Session × Store :=
  let session := ((s.session? u.session).getD (.start u.session u.agent u.time)).apply u.delta u.time
  (session, { s with sessions := Table.insert u.session session s.sessions })

/-- Finishes a session, if there is one. -/
def finalize (id : String) (time : Instant) (s : Store) : Option Session × Store :=
  match s.session? id with
  | none => (none, s)
  | some session =>
    let session := session.finalize time
    (some session, { s with sessions := Table.insert id session s.sessions })

/-! ## Usage records -/

/-- Merges a record into the one of its key, or puts it at its place. -/
def insertStat (stat : Usage.Stat) : List Usage.Stat → List Usage.Stat
  | [] => [stat]
  | t :: rest =>
    if t.key = stat.key then t.merge stat :: rest
    else if stat.key.before t.key then stat :: t :: rest
    else t :: insertStat stat rest

def aggregate (stat : Usage.Stat) (s : Store) : Store :=
  { s with stats := insertStat stat s.stats }

/-- The totals at an instant, if the calendar has a month before it. -/
def summary? (s : Store) (now : Instant) : Option Usage.Windows := Usage.Windows.ofStats? now s.stats

/-! ## Results and billing -/

def save (r : ResultRecord) (s : Store) : Store := { s with results := s.results ++ [r] }

def resultsOf (s : Store) (agent session : String) : List ResultRecord :=
  s.results.filter fun r => r.agent == agent && r.session == session

def bill (u : SessionUsage) (stat : Usage.Stat) (s : Store) : Store :=
  { s with billed := s.billed ++ [(u, stat)] }

end Store

end Ensemble
