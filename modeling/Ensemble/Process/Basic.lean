import Ensemble.Process.Fan

/-!
# Processes

A process is a script that has run for a while: a line that performs acts, or a fan of branches,
some of which are processes themselves. A path leads from the outermost process to an active branch
by the numbers of the branches.

`Process.move?` is one move of the process at a path. Acts are performed by a function that turns
the world into a reply and another world.
-/

namespace Ensemble

inductive Process (A : Type) (R : A → Type) (β : Type)
  | line (script : Script A R β)
  | fan (state : Fan (Process A R β) (Script A R β) β)
      (next : List (BranchOutcome β) → Script A R β)

/-- What a process can do at a path. -/
inductive Move
  | act
  | fork
  | dispatch (i : Nat)
  | finish (i : Nat)
  | join (i : Nat)
  | collect
deriving DecidableEq, Repr

namespace Process

variable {A : Type} {R : A → Type} {β W : Type}

/-- How the process has ended, if it has. -/
def ending? : Process A R β → Option (Ending β)
  | .line (.ret r) => some (.ofResult r)
  | .line .crash => some .crashed
  | _ => none

/-- The process at a path. -/
def at? : List Nat → Process A R β → Option (Process A R β)
  | [], p => some p
  | i :: path, .fan f _ =>
    match f.branches[i]? with
    | some (.active p) => p.at? path
    | _ => none
  | _ :: _, .line _ => none

/-- Changes the process at a path, and the world with it. -/
def changeAt? (change : Process A R β → W → Option (Process A R β × W)) :
    List Nat → Process A R β → W → Option (Process A R β × W)
  | [], p, w => change p w
  | i :: path, .fan f next, w =>
    match f.branches[i]? with
    | some (.active p) =>
      (changeAt? change path p w).map fun (p, w) =>
        (.fan { f with branches := f.branches.set i (.active p) } next, w)
    | _ => none
  | _ :: _, .line _, _ => none

/-- One move of a process itself. -/
def step? (config : FanoutConfig) (perform : (a : A) → W → R a × W) (m : Move)
    (p : Process A R β) (w : W) : Option (Process A R β × W) :=
  match m, p with
  | .act, .line (.act a next) =>
    let (reply, w) := perform a w
    some (.line (next reply), w)
  | .act, .line (.pause _ next) => some (.line next, w)
  | .fork, .line (.fork branches next) => some (.fan (.start branches) next, w)
  | .dispatch i, .fan f next => (f.dispatch? config.maxConcurrency .line i).map (.fan · next, w)
  | .finish i, .fan f next => (f.finish? ending? i).map (.fan · next, w)
  | .join i, .fan f next => (f.join? config.failure i).map (.fan · next, w)
  | .collect, .fan f next => f.outcomes?.map fun outcomes => (.line (next outcomes), w)
  | _, _ => none

/-- One move of the process at a path. -/
def move? (config : FanoutConfig) (perform : (a : A) → W → R a × W) (path : List Nat) (m : Move)
    (p : Process A R β) (w : W) : Option (Process A R β × W) :=
  changeAt? (step? config perform m) path p w

end Process

end Ensemble
