import Ensemble.Proofs.Execution.Steps
import Ensemble.Proofs.Plan.Tree

/-!
# Putting steps together

What a step performs is what its calls perform, put together as they are
in the tree, and notes of steps left out. So a property that can be put
together in the same way (`Composes`) holds of a step if it holds of its
calls: of a step that has completed, if it holds of calls that have
(`Composes.completed`). If it also holds of calls that have done nothing,
it holds of a step that has ended in any way (`Composes.ended`), and of any
step on its way (`Composes.reached`), as it does of calls.
-/

namespace Ensemble.Execution

/-- A property of some calls and what they have performed that is kept when
calls follow each other and when they are the branches of a node. -/
structure Composes (G : List Call → History Act Act.Reply → Prop) : Prop where
  skips : ∀ {h}, (∀ x ∈ h, x.2.act.IsSkip) → G [] h
  append : ∀ {cs cs' h h'}, G cs h → G cs' h' → G (cs ++ cs') (h ++ h')
  fork : ∀ {h} {steps : List Step}, h.Within steps.length →
    (∀ (i : Nat) (s : Step), steps[i]? = some s → G s.calls (h.below i)) →
    G (steps.flatMap Step.calls) h

namespace Composes

variable {G : List Call → History Act Act.Reply → Prop} {r : Registry} {policy : FailurePolicy}

/-! ## Completed steps -/

/-- What is to be shown of a step that has completed. -/
def Completed (G : List Call → History Act Act.Reply → Prop) (r : Registry)
    (policy : FailurePolicy) (s : Step) : Prop :=
  ∀ scope h out, (step r s scope).Ends policy h (.completed out) → G s.calls h

theorem completed_sequence (hG : Composes G) {steps : List Step}
    (hsteps : ∀ s ∈ steps, Completed G r policy s) {name : String} {scope produced : Bindings}
    {last : Json} {h : History Act Act.Reply} {out : StepOutcome}
    (he : (sequence r name scope produced last steps).Ends policy h (.completed out)) :
    G (steps.flatMap Step.calls) h := by
  induction steps generalizing scope produced last h with
  | nil =>
      rw [sequence] at he
      obtain ⟨rfl, -⟩ := Script.ends_ret he
      exact hG.skips (by simp)
  | cons s rest ih =>
      rcases ends_sequence he with ⟨-, hcrash⟩ | ⟨before, later, rfl, hnext⟩
      · cases hcrash
      rcases hnext with ⟨err, -, -, hfail⟩ | ⟨first, hfirst, hrest⟩
      · cases hfail
      · exact hG.append (hsteps s (List.mem_cons_self ..) scope before first hfirst)
          (ih (fun t ht => hsteps t (List.mem_cons_of_mem _ ht)) hrest)

theorem completed_parallel (hG : Composes G) {steps : List Step}
    (hsteps : ∀ s ∈ steps, Completed G r policy s) (name : String) :
    Completed G r policy (.parallel name steps) := by
  intro scope h out he
  obtain ⟨before, later, outcomes, rfl, hj, hskips, hverdict⟩ := ends_parallel he
  obtain ⟨outs, rfl, -⟩ := verdict_eq_ok hj (ofResult_eq_completed.mp hverdict.symm)
  have hbranches : G (steps.flatMap Step.calls) before := by
    refine hG.fork (joined_within hj) fun i s hs => ?_
    -- all branches have completed, so each has come to its own end
    have hi : i < outs.length := by
      rw [← List.length_map (f := BranchOutcome.completed), joined_length hj]
      exact (List.getElem?_eq_some_iff.mp hs).1
    exact hsteps s (List.mem_of_getElem? hs) scope _ _
      (branch_ends hj hs (List.getElem?_eq_getElem hi))
  rw [Step.calls_parallel, ← List.append_nil (steps.flatMap Step.calls)]
  exact hG.append hbranches (hG.skips hskips)

theorem completed (hG : Composes G) {s : Step}
    (hcall : ∀ c ∈ s.calls, Completed G r policy (.call c)) : Completed G r policy s := by
  induction s with
  | call c => exact hcall c (List.mem_singleton_self c)
  | sequence name steps ih =>
      intro scope h out he
      rw [Step.calls_sequence] at hcall ⊢
      rw [step] at he
      exact hG.completed_sequence (fun s hs => ih s hs fun c hc =>
        hcall c (List.mem_flatMap.mpr ⟨s, hs, hc⟩)) he
  | parallel name steps ih =>
      rw [Step.calls_parallel] at hcall
      exact hG.completed_parallel (fun s hs => ih s hs fun c hc =>
        hcall c (List.mem_flatMap.mpr ⟨s, hs, hc⟩)) name

/-! ## Steps that have ended -/

/-- Notes of steps left out are nothing, whoever's they are. -/
theorem skips_of_idle (hG : Composes G) (hidle : ∀ cs, G cs []) {h : History Act Act.Reply}
    (hskips : ∀ x ∈ h, x.2.act.IsSkip) (cs : List Call) : G cs h := by
  have hall := hG.append (hG.skips hskips) (hidle cs)
  rwa [List.append_nil] at hall

/-- What is to be shown of a step that has ended, if no branch is dropped. -/
def Ended (G : List Call → History Act Act.Reply → Prop) (r : Registry) (s : Step) : Prop :=
  ∀ scope h e, (step r s scope).Ends .completeInFlight h e → G s.calls h

theorem ended_sequence (hG : Composes G) (hidle : ∀ cs, G cs []) {steps : List Step}
    (hsteps : ∀ s ∈ steps, Ended G r s) {name : String} {scope produced : Bindings} {last : Json}
    {h : History Act Act.Reply} {e : Ending StepOutcome}
    (he : (sequence r name scope produced last steps).Ends .completeInFlight h e) :
    G (steps.flatMap Step.calls) h := by
  induction steps generalizing scope produced last h with
  | nil =>
      rw [sequence] at he
      obtain ⟨rfl, -⟩ := Script.ends_ret he
      exact hidle _
  | cons s rest ih =>
      have hs := hsteps s (List.mem_cons_self ..) scope
      rcases ends_sequence he with ⟨hcrash, -⟩ | ⟨before, later, rfl, hnext⟩
      · rw [← List.append_nil h]
        exact hG.append (hs h _ hcrash) (hidle _)
      rcases hnext with ⟨err, hfail, hskips, -⟩ | ⟨first, hfirst, hrest⟩
      · exact hG.append (hs before _ hfail) (hG.skips_of_idle hidle hskips _)
      · exact hG.append (hs before _ hfirst)
          (ih (fun t ht => hsteps t (List.mem_cons_of_mem _ ht)) hrest)

theorem ended_parallel (hG : Composes G) (hidle : ∀ cs, G cs []) {steps : List Step}
    (hsteps : ∀ s ∈ steps, Ended G r s) (name : String) : Ended G r (.parallel name steps) := by
  intro scope h e he
  obtain ⟨before, later, outcomes, rfl, hj, hskips, -⟩ := ends_parallel he
  have hbranches : G (steps.flatMap Step.calls) before := by
    refine hG.fork (joined_within hj) fun i s hs => ?_
    -- a branch that was dispatched has come to its own end: none is dropped
    obtain ⟨o, -, ⟨ending, hends, -⟩ | ⟨-, hnone⟩ | ⟨-, hpolicy⟩⟩ := joined_outcome hj hs
    · exact hsteps s (List.mem_of_getElem? hs) scope _ ending hends
    · rw [hnone]
      exact hidle _
    · cases hpolicy
  rw [Step.calls_parallel, ← List.append_nil (steps.flatMap Step.calls)]
  exact hG.append hbranches (hG.skips hskips)

theorem ended (hG : Composes G) (hidle : ∀ cs, G cs []) {s : Step}
    (hcall : ∀ c ∈ s.calls, Ended G r (.call c)) : Ended G r s := by
  induction s with
  | call c => exact hcall c (List.mem_singleton_self c)
  | sequence name steps ih =>
      intro scope h e he
      rw [Step.calls_sequence] at hcall ⊢
      rw [step] at he
      exact hG.ended_sequence hidle (fun s hs => ih s hs fun c hc =>
        hcall c (List.mem_flatMap.mpr ⟨s, hs, hc⟩)) he
  | parallel name steps ih =>
      rw [Step.calls_parallel] at hcall
      exact hG.ended_parallel hidle (fun s hs => ih s hs fun c hc =>
        hcall c (List.mem_flatMap.mpr ⟨s, hs, hc⟩)) name

/-! ## Steps on their way -/

/-- What is to be shown of a step on its way. -/
def Reached (G : List Call → History Act Act.Reply → Prop) (r : Registry)
    (policy : FailurePolicy) (s : Step) : Prop :=
  ∀ scope h p, (step r s scope).Reaches policy h p → G s.calls h

theorem reached_sequence (hG : Composes G) (hidle : ∀ cs, G cs []) {steps : List Step}
    (hsteps : ∀ s ∈ steps, Reached G r policy s) {name : String} {scope produced : Bindings}
    {last : Json} {h : History Act Act.Reply} {p : Process Act Act.Reply StepOutcome}
    (hr : (sequence r name scope produced last steps).Reaches policy h p) :
    G (steps.flatMap Step.calls) h := by
  induction steps generalizing scope produced last h p with
  | nil =>
      rw [sequence] at hr
      obtain ⟨rfl, -⟩ := Script.reaches_ret hr
      exact hidle _
  | cons s rest ih =>
      have hs := hsteps s (List.mem_cons_self ..) scope
      rcases reaches_sequence hr with ⟨q, hq⟩ | ⟨before, later, rfl, hnext⟩
      · rw [← List.append_nil h]
        exact hG.append (hs h q hq) (hidle _)
      rcases hnext with ⟨⟨q, hq⟩, hskips⟩ | ⟨first, ⟨q, hq, -⟩, hrest⟩
      · exact hG.append (hs before q hq) (hG.skips_of_idle hidle hskips _)
      · exact hG.append (hs before q hq)
          (ih (fun t ht => hsteps t (List.mem_cons_of_mem _ ht)) hrest)

theorem reached (hG : Composes G) (hidle : ∀ cs, G cs []) {s : Step}
    (hcall : ∀ c ∈ s.calls, Reached G r policy (.call c)) : Reached G r policy s := by
  induction s with
  | call c => exact hcall c (List.mem_singleton_self c)
  | sequence name steps ih =>
      intro scope h p hr
      rw [Step.calls_sequence] at hcall ⊢
      rw [step] at hr
      exact hG.reached_sequence hidle (fun s hs => ih s hs fun c hc =>
        hcall c (List.mem_flatMap.mpr ⟨s, hs, hc⟩)) hr
  | parallel name steps ih =>
      intro scope h p hr
      rw [Step.calls_parallel] at hcall ⊢
      obtain ⟨before, later, rfl, hwithin, hbranch, hskips⟩ := reaches_parallel hr
      have hbranches : G (steps.flatMap Step.calls) before := by
        refine hG.fork hwithin fun i s hs => ?_
        obtain ⟨q, hq⟩ := hbranch i s hs
        have hmem := List.mem_of_getElem? hs
        exact ih s hmem (fun c hc => hcall c (List.mem_flatMap.mpr ⟨s, hmem, hc⟩)) scope _ q hq
      rw [← List.append_nil (steps.flatMap Step.calls)]
      exact hG.append hbranches (hG.skips hskips)

end Composes

end Ensemble.Execution
