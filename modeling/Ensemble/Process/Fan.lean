import Ensemble.Config
import Ensemble.Process.Script

/-!
# Fans

A fan is what a fork is while its branches run. A branch waits until it is dispatched, for which it
needs one of a limited number of permits; if a sibling has failed by then, it ends at once as
skipped. An active branch holds its permit until it ends. The node joins the branches that have
ended: it learns of their outcomes, and, if it is to cancel siblings, drops those that have not
ended when it learns of a failure. A crash is only noticed when it is joined.

All moves are partial functions that can be taken in any order; a scheduler picks one.
-/

namespace Ensemble

/-- How a branch has ended, before its node knows. -/
inductive Ending (β : Type)
  | completed (value : β)
  | failed (error : FlowError)
  | skipped
  | crashed
deriving Repr

namespace Ending

variable {β : Type}

def ofResult : Except FlowError β → Ending β
  | .ok value => .completed value
  | .error e => .failed e

/-- What a node makes of an ending. -/
def outcome : Ending β → BranchOutcome β
  | .completed value => .completed value
  | .failed e => .failed e
  | .skipped => .skipped
  | .crashed => .cancelled

def isFailed : Ending β → Bool
  | .failed _ => true
  | _ => false

def isCrashed : Ending β → Bool
  | .crashed => true
  | _ => false

end Ending

/-- A branch with a script `σ` that runs as a `φ`. -/
inductive Branch (φ σ β : Type)
  | waiting (script : σ)
  | active (process : φ)
  | ended (ending : Ending β)
  | joined (outcome : BranchOutcome β)

namespace Branch

variable {φ σ β : Type}

def isWaiting : Branch φ σ β → Bool
  | .waiting _ => true
  | _ => false

def isActive : Branch φ σ β → Bool
  | .active _ => true
  | _ => false

def isEnded : Branch φ σ β → Bool
  | .ended _ => true
  | _ => false

def outcome? : Branch φ σ β → Option (BranchOutcome β)
  | .joined o => some o
  | _ => none

/-- Whether the branch has neither ended nor been dropped. -/
def isUnfinished (b : Branch φ σ β) : Bool := b.isWaiting || b.isActive

/-- Drops a branch that has not ended. -/
def cancel (b : Branch φ σ β) : Branch φ σ β := if b.isUnfinished then .joined .cancelled else b

end Branch

/-- The branches of a fork, and whether one of them is known to have failed. -/
structure Fan (φ σ β : Type) where
  failed : Bool
  branches : List (Branch φ σ β)

namespace Fan

variable {φ σ β : Type}

def start (scripts : List σ) : Fan φ σ β := { failed := false, branches := scripts.map .waiting }

/-- How many branches hold a permit. -/
def inUse (f : Fan φ σ β) : Nat := f.branches.countP Branch.isActive

/-- Whether a permit is free; there is always at least one. -/
def hasPermit (limit : Option Nat) (f : Fan φ σ β) : Bool :=
  match limit with
  | none => true
  | some n => f.inUse < max n 1

/-- Dispatches a waiting branch, if a permit is free. -/
def dispatch? (limit : Option Nat) (run : σ → φ) (i : Nat) (f : Fan φ σ β) : Option (Fan φ σ β) :=
  match f.branches[i]? with
  | some (.waiting script) =>
    if f.hasPermit limit then
      some { f with
        branches := f.branches.set i (if f.failed then .ended .skipped else .active (run script)) }
    else none
  | _ => none

/-- Ends an active branch and gives back its permit. A failure is told to the siblings. -/
def finish? (ending? : φ → Option (Ending β)) (i : Nat) (f : Fan φ σ β) : Option (Fan φ σ β) :=
  match f.branches[i]? with
  | some (.active process) =>
    (ending? process).map fun e =>
      { failed := f.failed || e.isFailed, branches := f.branches.set i (.ended e) }
  | _ => none

/-- Joins a branch that has ended. -/
def join? (policy : FailurePolicy) (i : Nat) (f : Fan φ σ β) : Option (Fan φ σ β) :=
  match f.branches[i]? with
  | some (.ended e) =>
    let branches := f.branches.set i (.joined e.outcome)
    some
      { failed := f.failed || e.isCrashed
        branches :=
          if e.isFailed && policy == .cancelSiblings then branches.map .cancel else branches }
  | _ => none

/-- The outcomes in the order of the branches, once all are known. -/
def outcomes? (f : Fan φ σ β) : Option (List (BranchOutcome β)) := f.branches.mapM Branch.outcome?

/-- The first branch that has ended and is not joined. -/
def toJoin? (f : Fan φ σ β) : Option Nat := f.branches.findIdx? Branch.isEnded

end Fan

end Ensemble
