import Ensemble.Proofs.Execution.Composition
import Ensemble.Proofs.Execution.Covering

/-!
# Starts and ends of calls on their way

Whatever a step has come to, none of its calls has ended more often than it
has started (`step_matched`), also where branches have crashed or were
dropped. So the log can follow what is noted of it.
-/

namespace Ensemble.Execution

variable {r : Registry} {policy : FailurePolicy} {c : Call} {m : Message}
  {xs zs : List (Exchange Act Act.Reply)}

theorem matched_composes :
    Composes fun _ (h : History Act Act.Reply) => Act.Matched (History.acts h) where
  skips hskips := by
    refine Act.matched_of_silent fun a ha name => ?_
    obtain ⟨x, hx, rfl⟩ := List.mem_map.mp ha
    exact (Act.isQuiet_of_isSkip (hskips x hx) name).2
  append h h' := by
    rw [History.acts_append]
    exact h.append h'
  fork hwithin hbranch := Act.matched_of_branches hwithin fun i hi =>
    hbranch i _ (List.getElem?_eq_getElem hi)

/-- What is noted behind a conversation ends its call once at most. -/
theorem conclusion_leaves {answer : Except CallError AgentReply}
    {q : Prog Act Act.Reply (Except FlowError StepOutcome)} (hp : (conclusion c answer).Runs zs q)
    (name : String) :
    (zs.map Exchange.act).countP (Act.leaves name) ≤ (c.name == name).toNat := by
  cases answer with
  | ok reply =>
      rcases Prog.runs_act hp with rfl | ⟨_, zs, rfl, hcount⟩
      · exact Nat.zero_le _
      rcases Prog.runs_act hcount with rfl | ⟨_, zs, rfl, hret⟩
      · cases hname : c.name == name <;> simp [Act.leaves, hname]
      · cases hret
        cases hname : c.name == name <;> simp [Act.leaves, hname]
  | error e =>
      rcases Prog.runs_act hp with rfl | ⟨_, zs, rfl, hret⟩
      · exact Nat.zero_le _
      · cases hret
        cases hname : c.name == name <;> simp [Act.leaves, hname]

/-- While an agent is called, nothing is noted of steps. -/
theorem callAgent_leaves {q : Prog Act Act.Reply (Except CallError AgentReply)}
    (hp : (callAgent r c m).Runs xs q) (name : String) :
    (xs.map Exchange.act).countP (Act.leaves name) = 0 := by
  refine List.countP_eq_zero.mpr fun a ha => ?_
  obtain ⟨x, hx, rfl⟩ := List.mem_map.mp ha
  obtain ⟨handle, -, hperforms⟩ := (callAgent_performs r c m).of_runs hp x hx
  simp [(Act.isQuiet_of_logs (logs_of_performs hperforms) name).2]

theorem call_matched (r : Registry) (policy : FailurePolicy) (c : Call) :
    Composes.Reached (fun _ h => Act.Matched (History.acts h)) r policy (.call c) := by
  intro scope h p hr
  obtain ⟨xs, q, rfl, hruns⟩ := reaches_call hr
  rw [History.acts_own]
  rcases runs_call_opening hruns with hstart | ⟨m, later, -, rfl, hlater⟩
  · refine Act.matched_of_silent fun a ha name => ?_
    obtain ⟨x, hx, rfl⟩ := List.mem_map.mp ha
    rw [hstart x hx]
    rfl
  change Act.Matched (.logStart c.name :: .emitStart c.agent c.name m.toJson.canonical ::
    later.map Exchange.act)
  refine Act.Matched.of_start fun name => ?_
  rw [List.countP_cons_of_neg Bool.false_ne_true]
  rcases Prog.runs_bind hlater with ⟨p', hagent, -⟩ | ⟨ys, zs, answer, rfl, hagent, hlast⟩
  · rw [callAgent_leaves hagent]
    exact Nat.zero_le _
  · rw [List.map_append, List.countP_append, callAgent_leaves hagent, Nat.zero_add]
    exact conclusion_leaves hlast name

/-- No call of a step has ended more often than it has started. -/
theorem step_matched {s : Step} {scope : Bindings} {h : History Act Act.Reply}
    {p : Process Act Act.Reply StepOutcome} (hr : (step r s scope).Reaches policy h p) :
    Act.Matched (History.acts h) :=
  matched_composes.reached (fun _ => Act.matched_of_silent (by simp [History.acts]))
    (fun c _ => call_matched r policy c) scope h p hr

end Ensemble.Execution
