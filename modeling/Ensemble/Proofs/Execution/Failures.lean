import Ensemble.Proofs.Agent.Rounds
import Ensemble.Proofs.Execution.Calls
import Ensemble.Proofs.Plan.Tree

/-!
# How steps fail

What a step fails with comes from below. A node passes on the failure of one
of its children, or says that a branch was dropped, and a call passes on
that of its conversation (`fails_of_ends`). A conversation fails with what
the model, a tool or the session had to say, each in the name of the agent
that was found for the call; that no agent was found is said only where
there is none (`find?_of_unknownAgent`).
-/

namespace Ensemble

/-! ## Conversations -/

namespace AgentHandle

variable {h : AgentHandle} {step : String} {history : List Message} {reply : AgentReply}
  {xs : List (Exchange Act Act.Reply)} {e : CallError}

theorem fault_of_awaited {pending : PendingModel} (hlate : h.awaited pending = some (.error e)) :
    e.fault ≠ .unknownAgent := by
  unfold awaited at hlate
  split at hlate
  · obtain rfl := Except.error.inj (Option.some.inj hlate)
    exact CallFault.noConfusion
  · split at hlate
    · cases hlate
    · obtain rfl := Except.error.inj (Option.some.inj hlate)
      exact CallFault.noConfusion
    · cases hlate

theorem Halts.fault {context : ToolContext} {calls : List ToolCall}
    (hhalts : h.Halts context calls xs (some e)) : e.fault ≠ .unknownAgent := by
  cases hhalts with
  | unknown => exact CallFault.noConfusion
  | failed => exact CallFault.noConfusion

/-- A conversation never says that its agent is unknown. -/
theorem Conversation.fault {left : Nat}
    (hc : h.Conversation step left history reply xs (some (.error e))) (hleft : 0 < left) :
    e.fault ≠ .unknownAgent := by
  obtain ⟨before, last, ys, -, -, -, hcloses⟩ := hc.split hleft
  cases hcloses with
  | unanswered late => exact fault_of_awaited late
  | refused => exact CallFault.noConfusion
  | failed holds failure =>
      obtain ⟨_, _, -, -, -, hhalts⟩ := failure ▸ holds.turn
      exact hhalts.fault

end AgentHandle

namespace Execution

variable {r : Registry} {policy : FailurePolicy}

/-! ## Verdicts that are failures -/

theorem mem_of_firstError? {outcomes : List (BranchOutcome StepOutcome)} {err : FlowError}
    (h : firstError? outcomes = some err) : .failed err ∈ outcomes := by
  induction outcomes with
  | nil => cases h
  | cons o rest ih =>
      cases o with
      | failed e =>
          obtain rfl := Option.some.inj h
          exact List.mem_cons_self ..
      | completed | skipped | cancelled => exact List.mem_cons_of_mem _ (ih h)

/-- A node fails as one of its branches does, or because one was dropped. -/
theorem verdict_eq_error {name : String} {branches : List (String × BranchOutcome StepOutcome)}
    {err : FlowError} (h : verdict name branches = .error err) :
    .failed err ∈ branches.map Prod.snd ∨ ∃ message, err = .collaborator message := by
  unfold verdict at h
  split at h
  · rename_i e hfirst
    obtain rfl := Except.error.inj h
    exact .inl (mem_of_firstError? hfirst)
  · split at h
    · exact .inr ⟨_, (Except.error.inj h).symm⟩
    · cases h

/-! ## Steps -/

/-- What steps with the given calls fail with: what one of the calls has
failed with, or that a branch was dropped. -/
inductive Fails (r : Registry) (calls : List Call) : FlowError → Prop
  | call {c : Call} {m : Message} {xs : List (Exchange Act Act.Reply)} {e : CallError}
      (mem : c ∈ calls) (ends : (callAgent r c m).Ends xs (some (.error e))) :
      Fails r calls (.call e)
  | dropped (message : String) : Fails r calls (.collaborator message)

theorem Fails.mono {calls calls' : List Call} {err : FlowError} (hf : Fails r calls err)
    (hsub : ∀ c ∈ calls, c ∈ calls') : Fails r calls' err := by
  cases hf with
  | call mem ends => exact .call (hsub _ mem) ends
  | dropped message => exact .dropped message

theorem fails_of_ends_call {c : Call} {scope : Bindings} {h : History Act Act.Reply}
    {err : FlowError} (he : (step r (.call c) scope).Ends policy h (.failed err)) :
    Fails r [c] err := by
  rw [step] at he
  rcases Script.ends_prog he with ⟨_, -, -, hcrash⟩ | ⟨xs, result, later, hcall, -, hret⟩
  · cases hcrash
  obtain rfl := Ending.ofResult_injective (r := .error err) (Script.ends_ret hret).2
  rcases ends_call hcall with ⟨-, -, hnone⟩ | ⟨m, ys, zs, answer, -, -, hagent, hconcludes⟩
  · cases hnone
  rcases answer with _ | e | reply
  · cases hconcludes.2
  · obtain rfl := Except.error.inj (Option.some.inj hconcludes.2)
    exact .call (List.mem_singleton_self c) hagent
  · cases hconcludes.2

theorem fails_of_ends_sequence {steps : List Step}
    (hsteps : ∀ s ∈ steps, ∀ {scope h err}, (step r s scope).Ends policy h (.failed err) →
      Fails r s.calls err) {name : String} {scope produced : Bindings} {last : Json}
    {h : History Act Act.Reply} {err : FlowError}
    (he : (sequence r name scope produced last steps).Ends policy h (.failed err)) :
    Fails r (steps.flatMap Step.calls) err := by
  induction steps generalizing scope produced last h with
  | nil =>
      rw [sequence] at he
      cases (Script.ends_ret he).2
  | cons s rest ih =>
      rw [List.flatMap_cons]
      rcases ends_sequence he with ⟨-, hcrash⟩ | ⟨before, later, rfl, hnext⟩
      · cases hcrash
      rcases hnext with ⟨e, hfail, -, heq⟩ | ⟨first, -, hrest⟩
      · obtain rfl := Ending.failed.inj heq
        exact (hsteps s (List.mem_cons_self ..) hfail).mono fun c hc =>
          List.mem_append_left _ hc
      · exact (ih (fun t ht => hsteps t (List.mem_cons_of_mem _ ht)) hrest).mono fun c hc =>
          List.mem_append_right _ hc

/-- A joined branch that has failed is a step that has ended so. -/
theorem exists_ends_of_failed {steps : List Step} {scope : Bindings} {h : History Act Act.Reply}
    {outcomes : List (BranchOutcome StepOutcome)} {err : FlowError}
    (hj : Joined policy (branches r scope steps) h outcomes) (hmem : .failed err ∈ outcomes) :
    ∃ s ∈ steps, ∃ i, (step r s scope).Ends policy (h.below i) (.failed err) := by
  obtain ⟨i, hi⟩ := List.mem_iff_getElem?.mp hmem
  obtain ⟨s, hs⟩ : ∃ s, steps[i]? = some s := by
    refine ⟨_, List.getElem?_eq_getElem ?_⟩
    rw [← joined_length hj]
    exact (List.getElem?_eq_some_iff.mp hi).1
  rcases hj.outcome i _ _ (getElem?_branches hs) hi with ⟨e, hends, ho⟩ | ⟨ho, -⟩ | ⟨ho, -⟩
  · cases e with
    | failed e =>
        obtain rfl := BranchOutcome.failed.inj ho
        exact ⟨s, List.mem_of_getElem? hs, i, hends⟩
    | completed | skipped | crashed => cases ho
  · cases ho
  · cases ho

/-- A step fails as one of its calls does, or because a branch was dropped. -/
theorem fails_of_ends (s : Step) {scope : Bindings} {h : History Act Act.Reply} {err : FlowError}
    (he : (step r s scope).Ends policy h (.failed err)) : Fails r s.calls err := by
  induction s generalizing scope h err with
  | call c => exact fails_of_ends_call he
  | sequence name steps ih =>
      rw [step] at he
      rw [Step.calls_sequence]
      exact fails_of_ends_sequence (fun s hs => ih s hs) he
  | parallel name steps ih =>
      obtain ⟨before, later, outcomes, -, hj, -, hverdict⟩ := ends_parallel he
      have herr := Ending.ofResult_injective (r := .error err) hverdict
      rw [Step.calls_parallel]
      rcases verdict_eq_error herr.symm with hmem | ⟨message, rfl⟩
      · rw [joined_named hj] at hmem
        obtain ⟨s, hs, i, hends⟩ := exists_ends_of_failed hj hmem
        exact (ih s hs hends).mono fun c hc => List.mem_flatMap.mpr ⟨s, hs, hc⟩
      · exact .dropped message

/-! ## Calls without an agent -/

/-- A call says that its agent is unknown only if none is found. -/
theorem find?_of_unknownAgent {c : Call} {m : Message} {xs : List (Exchange Act Act.Reply)}
    {e : CallError} (he : (callAgent r c m).Ends xs (some (.error e)))
    (hfault : e.fault = .unknownAgent) : r.find? c.agent = none := by
  rcases ends_callAgent he with ⟨h, -, hconversation⟩ | ⟨hfind, -, -⟩
  · exact absurd hfault (hconversation.fault (by omega))
  · exact hfind

end Execution

end Ensemble
