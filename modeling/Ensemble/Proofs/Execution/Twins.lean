import Ensemble.Proofs.Execution.Calls
import Ensemble.Proofs.Plan.Tree
import Ensemble.Proofs.Run.Likeness

/-!
# Steps do not depend on best-effort services

A step is its own twin (`step_twin`): after like replies it goes on in the
same way, whatever the time at which usage was recorded. That time goes into
the records of an accountant, for the statistics and for the bill, and these
are like acts whose replies say nothing (`record_twin`). All other acts of a
step get the same replies in both runs.
-/

namespace Ensemble

namespace AgentHandle

variable {h : AgentHandle} {step : String}

/-- The records of an accountant may have another time. -/
theorem record_twin (a : Accountant) (delta : Tokens) (reason : String) :
    (a.record delta reason).Twin runLikeness (a.record delta reason) := by
  refine .act (.same _) fun reply reply' hreply => ?_
  change Except String SessionUsage at reply reply'
  cases hreply with
  | same =>
      refine Prog.twin_of_all ?_
      cases reply with
      | error message => trivial
      | ok usage =>
          refine ⟨counts_of_ne _ nofun, fun _ => ?_⟩
          change Prog.All runLikeness.Counts (if a.bills then _ else _)
          split
          · exact ⟨counts_of_ne _ nofun, fun _ => trivial⟩
          · trivial
  | recorded session agent delta usage usage' =>
      refine .act (.aggregate _ _) fun _ _ _ => ?_
      change Prog.Twin runLikeness (if a.bills then _ else _) (if a.bills then _ else _)
      split
      · exact .act (.bill ..) fun _ _ _ => .ret _
      · exact .ret _

theorem finishRound_twin (h : AgentHandle) (step : String) (answer : ModelResponse)
    (messages : List Message) : (h.finishRound step answer messages).Twin runLikeness
      (h.finishRound step answer messages) := by
  refine (record_twin h.accountant _ _).bind fun result => Prog.twin_of_all ?_
  cases result with
  | error message => trivial
  | ok _ => exact ⟨counts_of_ne _ nofun, fun _ => trivial⟩

/-- By induction on the rounds that are left. -/
theorem rounds_twin (h : AgentHandle) (step : String) (left : Nat) (history : List Message)
    (reply : AgentReply) : (h.rounds step left history reply).Twin runLikeness
      (h.rounds step left history reply) := by
  induction left generalizing history reply with
  | zero => exact .ret _
  | succ left ih =>
      refine .act (.same _) fun pending pending' hpending => ?_
      obtain rfl := (counts_of_ne (.send _) nofun).reply pending pending' hpending
      refine (Prog.twin_of_all (await_all h pending)).bind fun result => ?_
      cases result with
      | error e => exact .ret _
      | ok answer =>
          have huses := (h.runTools_uses { h.context with step } answer.toolCalls).mono
            (counts_of fun _ _ _ => id)
          refine (Prog.twin_of_all huses).bind fun ⟨results, failure⟩ => ?_
          refine (finishRound_twin h step answer _).bind fun finished => ?_
          cases finished with
          | error e => exact .ret _
          | ok _ =>
              cases failure with
              | some e => exact .ret _
              | none =>
                  change Prog.Twin runLikeness (if answer.toolCalls.isEmpty then _ else _)
                    (if answer.toolCalls.isEmpty then _ else _)
                  split
                  · exact .ret _
                  · exact ih _ _

end AgentHandle

namespace Execution

variable {r : Registry}

theorem callAgent_twin (r : Registry) (c : Call) (m : Message) :
    (callAgent r c m).Twin runLikeness (callAgent r c m) := by
  unfold callAgent
  split
  · exact AgentHandle.rounds_twin ..
  · exact .ret _

theorem call_twin (r : Registry) (c : Call) (scope : Bindings) :
    (call r c scope).Twin runLikeness (call r c scope) := by
  cases hbind : c.bind? (textOf scope) with
  | none =>
      rw [call_unbound hbind]
      exact .act (.same _) fun _ _ _ => .crash
  | some m =>
      rw [call_bound hbind]
      refine .act (.same _) fun _ _ _ => .act (.same _) fun _ _ _ => ?_
      refine (callAgent_twin r c m).bind fun answer => ?_
      cases answer with
      | ok reply => exact .act (.same _) fun _ _ _ => .act (.same _) fun _ _ _ => .ret _
      | error e => exact .act (.same _) fun _ _ _ => .ret _

theorem skipAll_ret_twin (names : List String) (result : Except FlowError StepOutcome) :
    ((skipAll names).andThen fun () => Script.ret result).Twin runLikeness
      ((skipAll names).andThen fun () => Script.ret result) :=
  Script.twin_of_all (Script.all_andThen_prog
    ((skipAll_skips names).mono (counts_of fun _ _ _ => id)) fun _ => .ret result)

theorem sequence_twin {steps : List Step}
    (hsteps : ∀ s ∈ steps, ∀ scope, (step r s scope).Twin runLikeness (step r s scope))
    (name : String) (scope produced : Bindings) (last : Json) :
    (sequence r name scope produced last steps).Twin runLikeness
      (sequence r name scope produced last steps) := by
  induction steps generalizing scope produced last with
  | nil =>
      rw [sequence]
      exact .ret _
  | cons s rest ih =>
      rw [sequence]
      refine (hsteps s (List.mem_cons_self ..) scope).andThen fun result => ?_
      cases result with
      | ok first => exact ih (fun t ht => hsteps t (List.mem_cons_of_mem _ ht)) _ _ _
      | error e => exact skipAll_ret_twin _ _

theorem step_twin (r : Registry) (s : Step) (scope : Bindings) :
    (step r s scope).Twin runLikeness (step r s scope) := by
  induction s generalizing scope with
  | call c =>
      rw [step]
      exact Script.twin_andThen_prog (call_twin r c scope) fun _ => .ret _
  | sequence name steps ih =>
      rw [step]
      exact sequence_twin ih name scope [] .null
  | parallel name steps ih =>
      rw [step]
      refine Script.twin_fork ?_ fun outcomes => skipAll_ret_twin _ _
      rw [branches_eq_map, List.forall₂_map_left_iff, List.forall₂_map_right_iff]
      exact List.forall₂_same.mpr fun s hs => ih s hs scope

end Execution

end Ensemble
