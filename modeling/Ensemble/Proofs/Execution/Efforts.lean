import Ensemble.Proofs.Execution.Composition
import Ensemble.Proofs.Execution.Covering
import Ensemble.Proofs.Run.Efforts

/-!
# Efforts of steps

What a step counts is what those of its calls have shown that have succeeded
(`step_credits`): a call counts all of its rounds when it succeeds, and none
if it fails or crashes, whatever it has shown by then. A step that has
completed has no other calls (`step_succeeds`).
-/

namespace Ensemble

namespace AgentHandle

variable {h : AgentHandle} {step : String} {history : List Message}

theorem results_shown (e : Round) : (e.shown h step).results = e.results :=
  roundMessages_results e.answer e.used

/-- What rounds show is what the reply to which they lead adds up. -/
theorem sum_shown_performed {rounds : List Round} (hrounds : ∀ e ∈ rounds, Round.Holds h step e)
    {done : String → Bool} (hdone : done step = true) :
    ((h.performed step history rounds).map fun x => x.act.shown done).sum
      = ((AgentReply.empty.afterAll rounds).modelCalls,
        (AgentReply.empty.afterAll rounds).toolCalls) := by
  have hshown : ((h.performed step history rounds).map Exchange.act).filterMap Act.round?
      = rounds.map (Round.shown h step) := by
    rw [List.filterMap_map]
    exact rounds_performed hrounds
  have hall : (rounds.map (Round.shown h step)).filter (fun s => done s.step)
      = rounds.map (Round.shown h step) := by
    refine List.filter_eq_self.mpr fun s hs => ?_
    obtain ⟨e, -, rfl⟩ := List.mem_map.mp hs
    exact hdone
  calc ((h.performed step history rounds).map fun x => x.act.shown done).sum
      = (((h.performed step history rounds).map Exchange.act).map (Act.shown done)).sum := by
        rw [List.map_map]
        rfl
    _ = ((rounds.map (Round.shown h step)).map ShownRound.effort).sum := by
        rw [Act.sum_shown, hshown, hall]
    _ = (rounds.length, (rounds.map fun e => e.results.length).sum) := by
        simp only [ShownRound.sum_effort, List.length_map, List.flatMap_map, List.length_flatMap,
          results_shown]
    _ = _ := by
        rw [AgentReply.modelCalls_afterAll, AgentReply.toolCalls_afterAll]
        exact Prod.ext (Nat.zero_add _).symm (Nat.zero_add _).symm

end AgentHandle

namespace Execution

variable {r : Registry} {cs cs' : List Call} {h h' : History Act Act.Reply}

/-- Some calls have counted what those have shown that have succeeded, and
nothing was shown or noted for other steps. -/
structure Credited (cs : List Call) (h : History Act Act.Reply) : Prop where
  own : ∀ x ∈ h, ∀ step, x.2.act.credited? = some step → step ∈ cs.map Call.name
  counted : h.total (fun x => x.act.counted) = h.total fun x => x.act.shown (succeeded h.entries)

/-- What is to be shown of calls with different names. -/
def Credits (cs : List Call) (h : History Act Act.Reply) : Prop :=
  (cs.map Call.name).Nodup → Credited cs h

theorem Credited.mem_of_succeeded (hc : Credited cs h) {step : String}
    (hs : succeeded h.entries step = true) : step ∈ cs.map Call.name := by
  obtain ⟨x, hx, hact⟩ := History.exists_of_succeeded hs
  exact hc.own x hx step (by rw [hact]; rfl)

theorem Credited.not_succeeded (hc : Credited cs h) {step : String}
    (hstep : step ∉ cs.map Call.name) : succeeded h.entries step = false :=
  Bool.eq_false_iff.mpr fun hs => hstep (hc.mem_of_succeeded hs)

/-- What was counted is what was shown of any steps that are, among these, the ones
that have succeeded. -/
theorem Credited.shown (hc : Credited cs h) {done : String → Bool}
    (hdone : ∀ step ∈ cs.map Call.name, done step = succeeded h.entries step) :
    h.total (fun x => x.act.counted) = h.total fun x => x.act.shown done := by
  rw [hc.counted]
  refine History.total_congr fun x hx => Act.shown_congr fun step hstep => ?_
  exact (hdone step (hc.own x hx step hstep)).symm

theorem credited_of_skips (hskips : ∀ x ∈ h, x.2.act.IsSkip) : Credited cs h := by
  have hnothing : ∀ x ∈ h, x.2.act.credited? = none ∧ x.2.act.counted = 0 ∧
      x.2.act.shown (succeeded h.entries) = 0 := by
    intro x hx
    have hskip := hskips x hx
    generalize x.2.act = a at hskip
    cases a <;> first | exact ⟨rfl, rfl, rfl⟩ | exact hskip.elim
  refine ⟨fun x hx step hstep => ?_, ?_⟩
  · rw [(hnothing x hx).1] at hstep
    cases hstep
  · rw [History.total_eq_zero fun x hx => (hnothing x hx).2.1,
      History.total_eq_zero fun x hx => (hnothing x hx).2.2]

theorem Credited.append (hc : Credited cs h) (hc' : Credited cs' h')
    (hnodup : ((cs ++ cs').map Call.name).Nodup) : Credited (cs ++ cs') (h ++ h') := by
  rw [List.map_append] at hnodup
  have hdisjoint := List.disjoint_of_nodup_append hnodup
  refine ⟨fun x hx step hstep => ?_, ?_⟩
  · rw [List.map_append]
    rcases List.mem_append.mp hx with hx | hx
    · exact List.mem_append_left _ (hc.own x hx step hstep)
    · exact List.mem_append_right _ (hc'.own x hx step hstep)
  -- a step of one part has not succeeded in the other one
  have hfirst : ∀ step ∈ cs.map Call.name,
      succeeded (h ++ h').entries step = succeeded h.entries step := by
    intro step hs
    rw [History.entries_append, succeeded_append, hc'.not_succeeded (hdisjoint hs), Bool.or_false]
  have hsecond : ∀ step ∈ cs'.map Call.name,
      succeeded (h ++ h').entries step = succeeded h'.entries step := by
    intro step hs
    rw [History.entries_append, succeeded_append, hc.not_succeeded fun hs' => hdisjoint hs' hs,
      Bool.false_or]
  rw [History.total_append, History.total_append, hc.shown hfirst, hc'.shown hsecond]

theorem credited_of_branches {steps : List Step} (hnodup : (Step.callNames steps).Nodup)
    (hwithin : h.Within steps.length)
    (hbranch : ∀ (i : Nat) (s : Step), steps[i]? = some s → Credited s.calls (h.below i)) :
    Credited (steps.flatMap Step.calls) h := by
  have hat : ∀ i (hi : i < steps.length), Credited steps[i].calls (h.below i) :=
    fun i hi => hbranch i _ (List.getElem?_eq_getElem hi)
  constructor
  · intro x hx step hstep
    obtain ⟨i, hi, path, hpath⟩ := hwithin x hx
    have hmem : (path, x.2) ∈ h.below i := History.mem_below.mpr (hpath ▸ hx)
    exact Step.mem_callNames (List.getElem_mem hi) ((hat i hi).own _ hmem step hstep)
  · rw [← hwithin.sum_total, ← hwithin.sum_total]
    refine Finset.sum_congr rfl fun i _ => (hat i i.2).shown fun step hstep => ?_
    refine Bool.eq_iff_iff.mpr ⟨fun hs => ?_, fun hs => hwithin.succeeded_iff.mpr ⟨i, i.2, hs⟩⟩
    obtain ⟨j, hj, hbelow⟩ := hwithin.succeeded_iff.mp hs
    -- the step is one of this branch only
    have hij : j = i := Step.eq_of_mem_callNames hnodup (List.getElem?_eq_getElem hj)
      (List.getElem?_eq_getElem i.2) ((hat j hj).mem_of_succeeded hbelow) hstep
    exact hij ▸ hbelow

theorem credits_composes : Composes Credits where
  skips hskips := fun _ => credited_of_skips hskips
  append hc hc' := by
    intro hnodup
    have hparts := hnodup
    rw [List.map_append] at hparts
    exact (hc hparts.of_append_left).append (hc' hparts.of_append_right) hnodup
  fork hwithin hbranch := fun hnodup => credited_of_branches hnodup hwithin fun i s hs =>
    hbranch i s hs (Step.nodup_of_callNames hnodup (List.mem_of_getElem? hs))

/-! ## Calls -/

variable {c : Call} {m : Message} {scope : Bindings} {ys : List (Exchange Act Act.Reply)}

theorem counted_of_performs {handle : AgentHandle} {step : String} {a : Act}
    (ha : handle.Performs step m a) : a.counted = 0 := by
  cases a <;> first | rfl | exact ha.elim

theorem credited?_of_performs {handle : AgentHandle} {step : String} {a : Act}
    (ha : handle.Performs step m a) {name : String} (hname : a.credited? = some name) :
    name = step := by
  cases a with
  | emitFinish agent model shown messages usage reason =>
      exact (Option.some.inj hname).symm.trans ha.2.2
  | logSuccess shown => exact ha.elim
  | _ => cases hname

/-- A call shows and notes nothing for other steps. -/
theorem call_credits_own (r : Registry) (c : Call) (scope : Bindings) :
    (call r c scope).All fun a => ∀ step, a.credited? = some step → step = c.name := by
  refine call_all r c scope (fun _ hstep => by cases hstep) (fun _ _ hstep => by cases hstep)
    fun m a ha step hstep => ?_
  cases ha with
  | agent find performs => exact credited?_of_performs performs hstep
  | success => exact (Option.some.inj hstep).symm
  | count => cases hstep
  | failure => cases hstep

/-- The rounds of a call that succeeds are shown before they are counted. -/
theorem callAgent_shown {reply : AgentReply} (hagent : (callAgent r c m).Ends ys (some (.ok reply)))
    {done : String → Bool} (hdone : done c.name = true) :
    (ys.map fun x => x.act.shown done).sum = (reply.modelCalls, reply.toolCalls) := by
  rcases ends_callAgent hagent with ⟨handle, -, hconversation⟩ | ⟨-, -, hunknown⟩
  · obtain ⟨rounds, hrounds, rfl, rfl⟩ := hconversation.summed (by omega)
    exact AgentHandle.sum_shown_performed hrounds hdone
  · cases hunknown

/-- While an agent is called, nothing is counted, and no success is noted. -/
theorem callAgent_uncounted {answer : Option (Except CallError AgentReply)}
    (hagent : (callAgent r c m).Ends ys answer) :
    ∀ x ∈ ys, x.act.counted = 0 ∧ x.act ≠ .logSuccess c.name := by
  intro x hx
  obtain ⟨handle, -, hperforms⟩ := (callAgent_performs r c m).of_ends hagent x hx
  refine ⟨counted_of_performs hperforms, fun hact => ?_⟩
  rw [hact] at hperforms
  exact hperforms

theorem mem_of_own (hown : ∀ x ∈ ys, ∀ step, x.act.credited? = some step → step = c.name) :
    ∀ x ∈ History.own ys, ∀ step, x.2.act.credited? = some step → step ∈ [c].map Call.name :=
  fun x hx step hstep => List.mem_singleton.mpr (History.forall_mem_own hown x hx step hstep)

/-- A call that has not succeeded has counted nothing, whatever it has shown. -/
theorem credited_of_uncounted
    (hown : ∀ x ∈ ys, ∀ step, x.act.credited? = some step → step = c.name)
    (huncounted : ∀ x ∈ ys, x.act.counted = 0 ∧ x.act ≠ .logSuccess c.name) :
    Credited [c] (.own ys) := by
  have hnone : succeeded (History.entries (.own ys)) c.name = false := by
    refine Bool.eq_false_iff.mpr fun hs => ?_
    obtain ⟨x, hx, hact⟩ := History.exists_of_succeeded hs
    exact (History.forall_mem_own huncounted x hx).2 hact
  have hshown : ∀ x ∈ History.own ys,
      x.2.act.shown (succeeded (History.entries (.own ys))) = 0 := by
    intro x hx
    calc x.2.act.shown (succeeded (History.entries (.own ys)))
        = x.2.act.shown fun _ => false := Act.shown_congr fun step hstep => by
          rw [History.forall_mem_own hown x hx step hstep, hnone]
      _ = 0 := by
          unfold Act.shown
          cases x.2.act.round? <;> rfl
  refine ⟨mem_of_own hown, ?_⟩
  rw [History.total_eq_zero fun x hx => (History.forall_mem_own huncounted x hx).1,
    History.total_eq_zero hshown]

/-- A call that has succeeded has counted all of its rounds. -/
theorem credited_of_success {reply : AgentReply} {xs : List (Exchange Act Act.Reply)}
    (hxs : xs = opening c m ++ (ys ++
      [⟨.logSuccess c.name, ()⟩, ⟨.count reply.modelCalls reply.toolCalls, ()⟩]))
    (hown : ∀ x ∈ xs, ∀ step, x.act.credited? = some step → step = c.name)
    (hagent : (callAgent r c m).Ends ys (some (.ok reply))) : Credited [c] (.own xs) := by
  refine ⟨mem_of_own hown, ?_⟩
  have hdone : succeeded (History.entries (.own xs)) c.name = true :=
    History.succeeded_of_mem (x := ([], ⟨.logSuccess c.name, ()⟩))
      (List.mem_map_of_mem (by simp [hxs])) rfl
  have hshown := callAgent_shown hagent hdone
  have hcounted : (ys.map fun x => x.act.counted).sum = 0 :=
    List.sum_eq_zero fun y hy => by
      obtain ⟨x, hx, rfl⟩ := List.mem_map.mp hy
      exact (callAgent_uncounted hagent x hx).1
  rw [History.total_own, History.total_own]
  generalize succeeded (History.entries (.own xs)) = done at hshown
  rw [hxs]
  simp only [List.map_append, List.sum_append, hcounted, hshown]
  simp [opening, Act.counted, Act.shown, Act.round?]

theorem call_credited {xs : List (Exchange Act Act.Reply)}
    {out : Option (Except FlowError StepOutcome)} (hp : (call r c scope).Ends xs out) :
    Credited [c] (.own xs) := by
  have hown := (call_credits_own r c scope).of_ends hp
  rcases ends_call hp with ⟨-, rfl, -⟩ | ⟨m, ys, zs, answer, -, hxs, hagent, hlast⟩
  · exact credited_of_uncounted hown (by simp [Act.counted])
  have hopening : ∀ x ∈ opening c m, x.act.counted = 0 ∧ x.act ≠ .logSuccess c.name := by
    simp [opening, Act.counted]
  have hfailed : (∀ x ∈ zs, x.act.counted = 0 ∧ x.act ≠ .logSuccess c.name) →
      Credited [c] (.own xs) := by
    intro hzs
    refine credited_of_uncounted hown (hxs ▸ List.forall_mem_append.mpr ⟨hopening, ?_⟩)
    exact List.forall_mem_append.mpr ⟨callAgent_uncounted hagent, hzs⟩
  rcases answer with - | e | reply
  · obtain ⟨rfl, -⟩ := hlast
    exact hfailed (by simp)
  · obtain ⟨rfl, -⟩ := hlast
    exact hfailed (by simp [Act.counted])
  · obtain ⟨rfl, -⟩ := hlast
    exact credited_of_success hxs hown hagent

/-! ## Steps -/

/-- What is counted of a step that has ended is what its calls have shown that
have succeeded. -/
theorem step_credits (s : Step) : Composes.Ended Credits r s := by
  refine credits_composes.ended (fun cs _ => credited_of_skips (by simp)) ?_
  intro c _ scope h e he _
  obtain ⟨xs, out, rfl, hcall⟩ := ends_step_call he
  exact call_credited hcall

theorem succeeds_composes : Composes fun cs h => ∀ c ∈ cs, succeeded h.entries c.name = true where
  skips _ := by simp
  append h h' := by
    rw [History.entries_append]
    refine List.forall_mem_append.mpr ⟨fun c hc => ?_, fun c hc => ?_⟩
    · rw [succeeded_append, h c hc, Bool.true_or]
    · rw [succeeded_append, h' c hc, Bool.or_true]
  fork hwithin hbranch := by
    intro c hc
    obtain ⟨s, hs, hcs⟩ := List.mem_flatMap.mp hc
    obtain ⟨i, hi, rfl⟩ := List.getElem_of_mem hs
    have hbelow := hbranch i _ (List.getElem?_eq_getElem hi) c hcs
    exact hwithin.succeeded_iff.mpr ⟨i, hi, hbelow⟩

/-- All calls of a step that has completed have succeeded. -/
theorem step_succeeds (policy : FailurePolicy) (s : Step) :
    Composes.Completed (fun cs h => ∀ c ∈ cs, succeeded h.entries c.name = true) r policy s := by
  refine succeeds_composes.completed fun c _ scope h out he => ?_
  obtain ⟨m, ys, reply, rfl, -⟩ := ends_completed_call he
  intro c' hc'
  obtain rfl := List.mem_singleton.mp hc'
  exact History.succeeded_of_mem (x := ([], ⟨.logSuccess c'.name, ()⟩))
    (List.mem_map_of_mem (by simp)) rfl

end Execution

end Ensemble
