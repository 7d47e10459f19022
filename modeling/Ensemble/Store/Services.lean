import Ensemble.Error
import Ensemble.Store.Memory

/-!
# Services

The stores and the quota as an engine sees them: calls of them can fail. A failing call changes
nothing and says which service was not available. The quota says whether a caller may start a run,
judged by the tokens of this month.
-/

namespace Ensemble

/-! ## Quotas -/

structure QuotaDecision where
  allowed : Bool
  used : UInt64
  budget : UInt64
  reason : Option String
deriving DecidableEq, Repr

def QuotaDecision.toJson (d : QuotaDecision) : Json :=
  .object [("allowed", .bool d.allowed), ("used", .ofCount d.used), ("budget", .ofCount d.budget),
    ("reason", .ofOption .string d.reason)]

/-- A budget of tokens for each month, or a flat refusal. -/
inductive Quota
  | budget (tokens : UInt64)
  | refuse (used tokens : UInt64) (reason : Option String)
deriving DecidableEq, Repr

namespace Quota

/-- The largest budget there is. -/
def unlimited : Quota := .budget (UInt64.ofNat (UInt64.size - 1))

/-- A budget is exhausted once as much has been used. -/
def decide : Quota → Usage.Totals → QuotaDecision
  | .budget tokens, t =>
    if tokens ≤ t.overall then
      { allowed := false, used := t.overall, budget := tokens
        reason := some "monthly token budget exhausted" }
    else { allowed := true, used := t.overall, budget := tokens, reason := none }
  | .refuse used tokens reason, _ => { allowed := false, used, budget := tokens, reason }

end Quota

/-- Turns a refusal into an error. -/
def QuotaDecision.check (d : QuotaDecision) : Except QuotaExceeded Unit :=
  if d.allowed then .ok ()
  else
    .error
      { reason := d.reason.getD "token budget exhausted", used := d.used, allowed := d.budget }

/-! ## Calls -/

/-- The calls that can fail. -/
inductive ServiceCall
  | findAgent
  | recordSession
  | finalizeSession
  | aggregateStat
  | summarizeStats
  | saveResult
  | reportBilling
  | checkQuota
deriving DecidableEq, Repr

def ServiceCall.name : ServiceCall → String
  | .findAgent => "agents.find"
  | .recordSession => "sessions.record"
  | .finalizeSession => "sessions.finalize"
  | .aggregateStat => "stats.aggregate"
  | .summarizeStats => "stats.summary"
  | .saveResult => "results.save"
  | .reportBilling => "billing.report"
  | .checkQuota => "quota.check"

def ServiceCall.all : List ServiceCall :=
  [.findAgent, .recordSession, .finalizeSession, .aggregateStat, .summarizeStats, .saveResult,
    .reportBilling, .checkQuota]

/-- What a failing call says. -/
def ServiceCall.failure (c : ServiceCall) : String := s!"{c.name} unavailable"

structure Services where
  store : Store
  quota : Quota
  faults : List ServiceCall
  /-- Whether usage is reported to billing. -/
  bills : Bool

namespace Services

/-- Makes a call of the store, unless calls of its kind fail. -/
def call {α : Type} (c : ServiceCall) (f : Store → α × Store) (s : Services) :
    Except String α × Services :=
  if s.faults.contains c then (.error c.failure, s)
  else
    let (a, store) := f s.store
    (.ok a, { s with store })

def recordSession (u : SessionUsage) (s : Services) : Except String Session × Services :=
  s.call .recordSession (Store.recordUsage u)

def aggregate (stat : Usage.Stat) (s : Services) : Except String Unit × Services :=
  s.call .aggregateStat fun store => ((), store.aggregate stat)

def bill (u : SessionUsage) (stat : Usage.Stat) (s : Services) : Except String Unit × Services :=
  s.call .reportBilling fun store => ((), store.bill u stat)

/-- Puts the tokens of a call on record. Once its session is written, failures do no harm. -/
def record (u : SessionUsage) (event finishReason : String) (s : Services) :
    Except String Session × Services :=
  match s.recordSession u with
  | (.error message, s) => (.error message, s)
  | (.ok session, s) =>
    let stat := Usage.Stat.ofEvent event u.delta (some finishReason) u.time
    let s := (s.aggregate stat).2
    (.ok session, if s.bills then (s.bill u stat).2 else s)

def finalize (id : String) (time : Instant) (s : Services) :
    Except String (Option Session) × Services :=
  s.call .finalizeSession (Store.finalize id time)

def save (r : ResultRecord) (s : Services) : Except String Unit × Services :=
  s.call .saveResult fun store => ((), store.save r)

/-- The totals at an instant, if the calendar has a month before it. -/
def summary? (s : Services) (now : Instant) : Option (Except String Usage.Windows) :=
  if s.faults.contains .summarizeStats then some (.error ServiceCall.summarizeStats.failure)
  else (s.store.summary? now).map .ok

/-- Whether a run may start, if there are totals to judge it on. -/
def checkQuota? (s : Services) (now : Instant) : Option (Except FlowError Unit) :=
  match s.summary? now with
  | none => none
  | some (.error message) => some (.error (.collaborator message))
  | some (.ok windows) =>
    if s.faults.contains .checkQuota then
      some (.error (.collaborator ServiceCall.checkQuota.failure))
    else
      match (s.quota.decide windows.thisMonth).check with
      | .ok () => some (.ok ())
      | .error e => some (.error (.quota e))

end Services

end Ensemble
