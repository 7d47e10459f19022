import Ensemble.Proofs.Process.Counting
import Ensemble.Proofs.Run.Trace

/-!
# Logs, counts and histories

The log of a run is what its acts have noted, in order (`log_of_run`), and
its calls have been counted by those acts that count (`agentCalls_of_run`).
So a log that was good is so still exactly if no act has noted a failure
(`noteAll_ok`).
-/

namespace Ensemble

namespace Act

/-- What an act does to the log. -/
def note : Act → RunLog → RunLog
  | .logStart step => .startStep step
  | .logSuccess step => .endSuccess step
  | .logFailure step error => .endFailed step error
  | .logSkip step => .skip step
  | .logError error => .fail error
  | _ => id

/-- Whether an act notes a failure in the log. -/
def isFailure : Act → Bool
  | .logFailure .. | .logError _ => true
  | _ => false

/-- Whether an act counts a call that has succeeded. -/
def isCount : Act → Bool
  | .count .. => true
  | _ => false

theorem note_ok (a : Act) (l : RunLog) : (a.note l).ok = (l.ok && !a.isFailure) := by
  cases a with
  | logFailure step error => exact (Bool.and_false _).symm
  | logError error => exact (Bool.and_false _).symm
  | _ => exact (Bool.and_true _).symm

/-- What acts do to the log, one after the other. -/
def noteAll (acts : List Act) (l : RunLog) : RunLog := acts.foldl (fun l a => a.note l) l

theorem noteAll_append (acts acts' : List Act) (l : RunLog) :
    noteAll (acts ++ acts') l = noteAll acts' (noteAll acts l) := List.foldl_append

/-- A log is good as long as no failure is noted. -/
theorem noteAll_ok (acts : List Act) (l : RunLog) :
    (noteAll acts l).ok = (l.ok && !acts.any isFailure) := by
  induction acts generalizing l with
  | nil => exact (Bool.and_true _).symm
  | cons a rest ih =>
      calc (noteAll rest (a.note l)).ok
          = (l.ok && !a.isFailure && !rest.any isFailure) := by rw [ih, note_ok]
        _ = (l.ok && !(a :: rest).any isFailure) := by
            rw [List.any_cons, Bool.not_or, Bool.and_assoc]

end Act

theorem History.count_eq_countP (p : Act → Bool) (h : History Act Act.Reply) :
    h.count p = (History.acts h).countP p := by
  rw [History.acts, List.countP_map]
  rfl

namespace World

variable {M : Type} [LanguageModel M]

theorem perform_log (a : Act) (w : World M) : (perform a w).2.log = a.note w.log := by
  cases a with
  | invoke tool args context => exact (invoke_untouched tool args context w).log
  | recordSession session agent delta => exact (recordSession_untouched session agent delta w).log
  | finalize session => exact (finalize_untouched session w).log
  | _ => rfl

theorem perform_agentCalls (a : Act) (w : World M) :
    (perform a w).2.counts.agentCalls = w.counts.agentCalls + a.isCount.toNat := by
  cases a with
  | invoke tool args context =>
      exact congrArg RunCounts.agentCalls (invoke_untouched tool args context w).counts
  | recordSession session agent delta =>
      exact congrArg RunCounts.agentCalls (recordSession_untouched session agent delta w).counts
  | finalize session => exact congrArg RunCounts.agentCalls (finalize_untouched session w).counts
  | _ => rfl

variable {β : Type} {config : FanoutConfig} {drift : World M → World M → Prop}
  {p₀ p : Process Act Act.Reply β} {w₀ w : World M} {h : History Act Act.Reply}

/-- The log of a run is what the acts of its history have noted. -/
theorem log_of_run (hdrift : ∀ w w', drift w w' → w'.log = w.log)
    (hrun : Process.Run config perform drift p₀ w₀ h p w) :
    w.log = Act.noteAll (History.acts h) w₀.log := by
  refine hrun.along (fun h w => w.log = Act.noteAll (History.acts h) w₀.log) rfl ?_ ?_
  · intro h w w' hw hd
    rw [hdrift w w' hd, hw]
  · intro h w task a hw
    rw [perform_log, hw, History.acts_append, Act.noteAll_append]
    rfl

/-- Each call that has succeeded is counted. -/
theorem agentCalls_of_run (hdrift : ∀ w w', drift w w' → w'.counts = w.counts)
    (hrun : Process.Run config perform drift p₀ w₀ h p w) :
    w.counts.agentCalls = w₀.counts.agentCalls + h.count Act.isCount := by
  refine hrun.along
    (fun h w => w.counts.agentCalls = w₀.counts.agentCalls + h.count Act.isCount) rfl ?_ ?_
  · intro h w w' hw hd
    rw [hdrift w w' hd, hw]
  · intro h w task a hw
    rw [perform_agentCalls, hw, History.count_append, History.count_cons, Nat.add_assoc]
    rfl

end World

end Ensemble
