import Ensemble.Process.Basic

/-!
# Schedules

One way to let the tasks of a process take turns, on a clock that jumps. A task runs until it has to
wait: for a pause to end, for a permit, for its branches, or for room in a stream. Tasks that can
go on are served first in, first out; when there are none, the clock jumps to the end of the next
pause. The branches of a fork are queued in order.

A stream that is full holds up the task that writes to it, and all tasks that want to write after
it, in order, until its reader has had a turn.

Everything a schedule does to a process is a `Process.move?`. A schedule has fuel for its moves.
-/

namespace Ensemble

/-- What a schedule must know about a world. -/
structure Machine (A : Type) (R : A → Type) (W : Type) where
  perform : (a : A) → W → R a × W
  /-- Whether an act writes to the stream. -/
  writes : A → Bool
  hasRoom : W → Bool
  /-- Whether there is something to read in the stream. -/
  hasUnread : W → Bool
  /-- The reader takes all that is in the stream. -/
  read : W → W
  setTime : Nat → W → W

/-- Who gets the next turn. -/
inductive Turn
  | task (path : List Nat)
  | reader
deriving DecidableEq, Repr

structure Schedule (A : Type) (R : A → Type) (β W : Type) where
  process : Process A R β
  world : W
  /-- The task that has the turn. -/
  current : Option (List Nat)
  ready : List Turn
  /-- The pauses that have not ended, in the order of their ends. -/
  pauses : List (Nat × List Nat)
  /-- The tasks that wait for room in the stream. -/
  stalled : List (List Nat)
  time : Nat

namespace Schedule

variable {A : Type} {R : A → Type} {β W : Type}

def start (script : Script A R β) (world : W) (time : Nat) : Schedule A R β W :=
  { process := .line script, world, current := none, ready := [.task []], pauses := []
    stalled := [], time }

/-! ## Queues -/

/-- Queues a turn, unless it is queued already. -/
def wake (t : Turn) (s : Schedule A R β W) : Schedule A R β W :=
  if s.ready.contains t then s else { s with ready := s.ready ++ [t] }

def endTurn (s : Schedule A R β W) : Schedule A R β W := { s with current := none }

/-- Puts a pause behind those that end no later. -/
def insertPause (due : Nat) (path : List Nat) : List (Nat × List Nat) → List (Nat × List Nat)
  | [] => [(due, path)]
  | (d, p) :: rest =>
    if due < d then (due, path) :: (d, p) :: rest else (d, p) :: insertPause due path rest

def pauseFor (ms : Nat) (path : List Nat) (s : Schedule A R β W) : Schedule A R β W :=
  { s with pauses := insertPause (s.time + ms) path s.pauses }

/-- Gives the first of the stalled tasks a turn. -/
def wakeStalled (s : Schedule A R β W) : Schedule A R β W :=
  match s.stalled with
  | path :: _ => s.wake (.task path)
  | [] => s

/-- Forgets the tasks of dropped branches, those that are below a path by a given number. -/
def forget (path : List Nat) (dropped : List Nat) (s : Schedule A R β W) : Schedule A R β W :=
  let isDropped (p : List Nat) : Bool := dropped.any fun i => (path ++ [i]).isPrefixOf p
  let s := { s with
    ready := s.ready.filter fun
      | .task p => !isDropped p
      | .reader => true
    pauses := s.pauses.filter fun pause => !isDropped pause.2
    stalled := s.stalled.filter fun p => !isDropped p }
  s.wakeStalled

/-! ## Moves -/

/-- Makes a move of the process. -/
def move? (config : FanoutConfig) (m : Machine A R W) (path : List Nat) (move : Move)
    (s : Schedule A R β W) : Option (Schedule A R β W) :=
  (s.process.move? config m.perform path move s.world).map fun (process, world) =>
    { s with process, world }

/-- The fan at a path. -/
def fan? (path : List Nat) (s : Schedule A R β W) :
    Option (Fan (Process A R β) (Script A R β) β) := do
  match ← s.process.at? path with
  | .fan f _ => some f
  | .line _ => none

/-- After a branch has ended, its permit goes to the first sibling that has asked for one, and its
node gets a turn. -/
def release (path : List Nat) (s : Schedule A R β W) : Schedule A R β W :=
  let next? := do
    let f ← s.fan? path
    (List.range f.branches.length).find? fun i =>
      (f.branches[i]?.any Branch.isWaiting) && !s.ready.contains (.task (path ++ [i]))
  let s := match next? with
    | some i => s.wake (.task (path ++ [i]))
    | none => s
  s.wake (.task path)

/-- Whether a task may write to the stream now. -/
def mayWrite (m : Machine A R W) (path : List Nat) (s : Schedule A R β W) : Bool :=
  m.hasRoom s.world && s.stalled.head?.all (· == path)

/-- After an act, the reader gets a turn if there is something to read. -/
def wakeReader (m : Machine A R W) (s : Schedule A R β W) : Schedule A R β W :=
  if m.hasUnread s.world then s.wake .reader else s

/-- One move of the task that has the turn. -/
def advance? (config : FanoutConfig) (m : Machine A R W) (path : List Nat)
    (s : Schedule A R β W) : Option (Schedule A R β W) := do
  match ← s.process.at? path with
  | .line (.act a _) =>
    if !m.writes a then s.move? config m path .act
    else if s.mayWrite m path then
      let s ← s.move? config m path .act
      let s := s.wakeReader m
      return if s.stalled.isEmpty then s else { s with stalled := s.stalled.tail }.wakeStalled
    else return { s with stalled := if s.stalled.contains path then s.stalled else s.stalled ++ [path] }.endTurn
  | .line (.pause ms _) =>
    let s ← s.move? config m path .act
    return if ms = 0 then s else (s.pauseFor ms path).endTurn
  | .line (.fork branches _) =>
    let s ← s.move? config m path .fork
    return { s with
      ready := s.ready ++ (List.range branches.length).map fun i => .task (path ++ [i]) }
  | .line (.ret _) => leave
  | .line .crash => leave
  | .fan f _ =>
    match f.toJoin? with
    | some i =>
      let s ← s.move? config m path (.join i)
      let after ← s.fan? path
      let dropped := (List.range f.branches.length).filter fun j =>
        f.branches[j]?.any Branch.isUnfinished && !after.branches[j]?.any Branch.isUnfinished
      return if dropped.isEmpty then s else (s.forget path dropped).wake (.task path)
    | none =>
      if f.outcomes?.isSome && !s.ready.contains (.task path) then s.move? config m path .collect
      else return s.endTurn
where
  /-- Ends the task. -/
  leave : Option (Schedule A R β W) :=
    match path.getLast? with
    | none => some s.endTurn
    | some i =>
      (s.move? config m path.dropLast (.finish i)).map fun s => (s.release path.dropLast).endTurn

/-- Gives a task the turn; a branch that waits asks for a permit first. -/
def enter (config : FanoutConfig) (m : Machine A R W) (path : List Nat) (s : Schedule A R β W) :
    Schedule A R β W :=
  let s := { s with current := some path }
  match path.getLast? with
  | none => s
  | some i =>
    let node := path.dropLast
    match (s.fan? node).bind fun f => f.branches[i]? with
    | some (.active _) => s
    | some (.waiting _) =>
      match s.move? config m node (.dispatch i) with
      | none => s.endTurn
      | some s => if (s.process.at? path).isSome then s else (s.release node).endTurn
    | _ => s.endTurn

/-- One move, or one turn: nothing if there is nothing left to do. -/
def step? (config : FanoutConfig) (m : Machine A R W) (s : Schedule A R β W) :
    Option (Schedule A R β W) :=
  match s.current with
  | some path => s.advance? config m path
  | none =>
    match s.ready with
    | .reader :: ready => some ({ s with ready, world := m.read s.world }.wakeStalled)
    | .task path :: ready => some ({ s with ready }.enter config m path)
    | [] =>
      match s.pauses with
      | [] => none
      | (due, _) :: _ =>
        let (ended, pauses) := s.pauses.partition fun pause => pause.1 == due
        some { s with
          time := due, pauses, ready := ended.map fun pause => .task pause.2
          world := m.setTime due s.world }

/-- Runs until nothing is left to do. -/
def run? (config : FanoutConfig) (m : Machine A R W) : Nat → Schedule A R β W
    → Option (Schedule A R β W)
  | 0, _ => none
  | fuel + 1, s =>
    match s.step? config m with
    | none => some s
    | some s => run? config m fuel s

/-- How the outermost task has ended. -/
def ending? (s : Schedule A R β W) : Option (Ending β) := s.process.ending?

end Schedule

end Ensemble
