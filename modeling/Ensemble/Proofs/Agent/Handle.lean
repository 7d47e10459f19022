import Ensemble.Proofs.Process.Ending
import Ensemble.Agent.Handle

/-!
# What calling an agent performs

One lemma for each part of a conversation: which acts it performs, and
with which result it ends. Later files only use these lemmas.
-/

namespace Ensemble

namespace AgentHandle

variable {h : AgentHandle} {xs : List (Exchange Act Act.Reply)}

/-- What a call makes of an answer: nothing if the model crashes. -/
def awaited (h : AgentHandle) (pending : PendingModel) :
    Option (Except CallError ModelResponse) :=
  match h.timeout.filter (· < pending.delay) with
  | some limit => some (.error (h.fail (.timeout (.ofMillis limit))))
  | none =>
    match pending.outcome with
    | .answered response => some (.ok response)
    | .failed e => some (.error (h.fail (.model e)))
    | .crashed => none

/-- The call waits for the answer, or until its time is up. -/
def await (h : AgentHandle) (pending : PendingModel) :
    RunProg (Except CallError ModelResponse) :=
  match h.timeout.filter (· < pending.delay) with
  | some limit => .pause limit (.ret (.error (h.fail (.timeout (.ofMillis limit)))))
  | none =>
    .pause pending.delay (match pending.outcome with
      | .answered response => .ret (.ok response)
      | .failed e => .ret (.error (h.fail (.model e)))
      | .crashed => .crash)

theorem complete_eq (h : AgentHandle) (history : List Message) :
    h.complete history = .act (.send (h.request history)) h.await := rfl

theorem ends_await {pending : PendingModel} {out : Option (Except CallError ModelResponse)}
    (hp : (h.await pending).Ends xs out) : xs = [] ∧ out = h.awaited pending := by
  unfold await at hp
  unfold awaited
  split at hp
  · exact Prog.ends_ret (Prog.ends_pause hp)
  · have hout := Prog.ends_pause hp
    split at hout
    · exact Prog.ends_ret hout
    · exact Prog.ends_ret hout
    · exact Prog.ends_crash hout

end AgentHandle

end Ensemble
