import Ensemble.Process.Schedule
import Ensemble.Json.Basic

/-!
# Rehearsing branches

Branches that do nothing but pause show how a schedule lets them take turns. Each notes when it
starts and when it ends, on the clock of the schedule; then it succeeds with a value, fails, or
crashes.
-/

namespace Ensemble.Rehearsal

/-- What a branch notes. -/
structure Note where
  isEnd : Bool
  index : Nat
deriving DecidableEq, Repr

/-- The notes of all branches, with the milliseconds at which they came. -/
structure Notes where
  time : Nat
  taken : List (Note × Nat)
deriving Repr

def Notes.machine : Machine Note (fun _ => Unit) Notes :=
  { perform := fun n w => ((), { w with taken := w.taken ++ [(n, w.time)] })
    writes := fun _ => false
    hasRoom := fun _ => true
    hasUnread := fun _ => false
    read := id
    setTime := fun time w => { w with time } }

/-- How a branch ends. -/
inductive BranchEnd
  | succeed (value : Json)
  | fail (message : String)
  | crash
deriving Repr

structure RehearsedBranch where
  delays : List Nat
  ending : BranchEnd
deriving Repr

/-- A value, or the outcomes of all branches. -/
inductive BranchResult
  | value (v : Json)
  | outcomes (all : List (BranchOutcome BranchResult))

abbrev NoteScript := Script Note (fun _ => Unit) BranchResult

def BranchEnd.script : BranchEnd → NoteScript
  | .succeed v => .ret (.ok (.value v))
  | .fail message => .ret (.error (.collaborator message))
  | .crash => .crash

def RehearsedBranch.script (b : RehearsedBranch) (index : Nat) : NoteScript :=
  let last : NoteScript := .act { isEnd := true, index } fun () => b.ending.script
  .act { isEnd := false, index } fun () => b.delays.foldr .pause last

/-- Forks into branches and ends with their outcomes. -/
def forkBranches (branches : List RehearsedBranch) : NoteScript :=
  .fork ((branches.zipIdx).map fun (b, index) => b.script index) fun all =>
    .ret (.ok (.outcomes all))

/-- The outcomes of some branches and their notes, within a number of moves. -/
def runBranches? (moves : Nat) (config : FanoutConfig) (branches : List RehearsedBranch) :
    Option (List (BranchOutcome BranchResult) × List (Note × Nat)) := do
  let start := Schedule.start (forkBranches branches) { time := 0, taken := [] } 0
  let s ← start.run? config Notes.machine moves
  match s.ending? with
  | some (.completed (.outcomes all)) => some (all, s.world.taken)
  | _ => none

end Ensemble.Rehearsal
