import Ensemble.Error

/-!
# Scripts

A script says what a task does: it asks the world for *acts*, one after the other, each with a
reply that the rest depends on, it pauses, and it forks into branches whose outcomes it waits for.
It ends with a result, or it crashes. `Prog` is the part without forks, with results of any type;
it is a monad.

Scripts only say what is asked for. How the branches of a fork take turns is a matter of
`Process`, and what the acts do is a matter of the world.
-/

namespace Ensemble

/-- What has become of a branch of a fork. A skipped branch has never started; a cancelled one was
dropped while it ran, or has crashed. -/
inductive BranchOutcome (β : Type)
  | completed (value : β)
  | failed (error : FlowError)
  | skipped
  | cancelled
deriving Repr

def BranchOutcome.isCompleted {β : Type} : BranchOutcome β → Bool
  | .completed _ => true
  | _ => false

def BranchOutcome.isFailed {β : Type} : BranchOutcome β → Bool
  | .failed _ => true
  | _ => false

/-- A sequence of acts `A` with replies `R`, and a result. -/
inductive Prog (A : Type) (R : A → Type) (α : Type)
  | ret (a : α)
  | act (a : A) (next : R a → Prog A R α)
  | pause (ms : Nat) (next : Prog A R α)
  | crash

/-- A sequence of acts and forks, and the result of a task. -/
inductive Script (A : Type) (R : A → Type) (β : Type)
  | ret (r : Except FlowError β)
  | act (a : A) (next : R a → Script A R β)
  | pause (ms : Nat) (next : Script A R β)
  | crash
  | fork (branches : List (Script A R β)) (next : List (BranchOutcome β) → Script A R β)

namespace Prog

variable {A : Type} {R : A → Type} {α γ : Type}

def bind : Prog A R α → (α → Prog A R γ) → Prog A R γ
  | .ret a, f => f a
  | .act a next, f => .act a fun r => (next r).bind f
  | .pause ms next, f => .pause ms (next.bind f)
  | .crash, _ => .crash

instance : Monad (Prog A R) where
  pure := .ret
  bind := bind

/-- Waits; a pause of no length is none. -/
def wait (ms : Nat) : Prog A R Unit := .pause ms (.ret ())

/-- Goes on with a script. -/
def andThen {β : Type} : Prog A R α → (α → Script A R β) → Script A R β
  | .ret a, f => f a
  | .act a next, f => .act a fun r => (next r).andThen f
  | .pause ms next, f => .pause ms (next.andThen f)
  | .crash, _ => .crash

/-- A program whose result ends the task. -/
def toScript {β : Type} (p : Prog A R (Except FlowError β)) : Script A R β := p.andThen .ret

end Prog

namespace Script

variable {A : Type} {R : A → Type} {β : Type}

/-- Goes on with the result of a task. -/
def andThen : Script A R β → (Except FlowError β → Script A R β) → Script A R β
  | .ret r, f => f r
  | .act a next, f => .act a fun r => (next r).andThen f
  | .pause ms next, f => .pause ms (next.andThen f)
  | .crash, _ => .crash
  | .fork branches next, f => .fork branches fun outcomes => (next outcomes).andThen f

end Script

end Ensemble
