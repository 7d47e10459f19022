import Ensemble.Proofs.Engine.Filing
import Ensemble.Proofs.Engine.Logging
import Ensemble.Proofs.Engine.Report
import Ensemble.Proofs.Execution.Efforts

/-!
# Statistics of runs

The counts of a run are taken when calls succeed, and its trace is written
as their rounds end. So the counts are those of the rounds that belong to
steps that have succeeded (`counts_of_succeeded`), and they are those of the
whole trace exactly if it shows no others, as in a run that has completed. A
call that fails behind a round that is shown makes the difference
(`rounds_beyond_counts`).
-/

namespace Ensemble

/-- The rounds that a report shows. -/
def RunReport.rounds (rep : RunReport) : List ShownRound := rep.trace.filterMap Chunk.round?

/-- The counts of a report are those of the rounds of steps that have succeeded;
they are those of all rounds if and only if there are no others. -/
structure RunReport.CountsSucceeded (rep : RunReport) : Prop where
  counted : rep.counts.Counts (rep.rounds.filter fun s => succeeded rep.log.steps s.step)
  all_iff : rep.counts.Counts rep.rounds ↔
    ∀ s ∈ rep.rounds, succeeded rep.log.steps s.step = true

namespace Engine

variable {e : Engine} {services : Services} {r : Request} {p : Prepared}

namespace Concluded

variable {policy : FailurePolicy} {result : Except FlowError StepOutcome}
  {before h : History Act Act.Reply} {trace : List Chunk}

/-- The end of a run comes to nothing. -/
theorem total_acts (hc : Concluded p policy result before h trace) {f : Act → Effort}
    (hf : ∀ a, IsClosing a → f a = 0) :
    ((History.acts h).map f).sum = before.total fun x => f x.act := by
  have hclosing : ((closing p result).map f).sum = 0 :=
    List.sum_eq_zero fun y hy => by
      obtain ⟨a, ha, rfl⟩ := List.mem_map.mp hy
      exact hf a (closing_closes p result ha)
  rw [hc.acts, List.map_append, List.sum_append, hclosing, History.total_acts]
  exact add_zero _

theorem entries (hc : Concluded p policy result before h trace) : h.entries = before.entries := by
  rw [History.entries, hc.acts, List.filterMap_append, List.filterMap_eq_nil_iff.mpr fun a ha =>
    Act.logged?_of_logs (logs_of_isClosing (closing_closes p result ha)), List.append_nil]
  rfl

theorem credited (hc : Concluded p .completeInFlight result before h trace)
    (hprepared : e.prepareAllowed services r = .ok p) :
    Execution.Credited p.plan.root.calls before :=
  Execution.step_credits p.plan.root [] before _ hc.root (plan_of_prepared hprepared).1

/-- What was counted is what the trace shows of steps that have succeeded. -/
theorem sum_counted (hc : Concluded p .completeInFlight result before h trace)
    (hprepared : e.prepareAllowed services r = .ok p) :
    (h.total fun x => x.act.counted)
      = (((trace.filterMap Chunk.round?).filter fun s => succeeded h.entries s.step).map
          ShownRound.effort).sum := by
  calc (h.total fun x => x.act.counted)
      = before.total fun x => x.act.counted := by
        rw [History.total_acts, hc.total_acts fun a ha => by
          cases a <;> first | rfl | exact ha.elim]
    _ = before.total fun x => x.act.shown (succeeded h.entries) := by
        rw [hc.entries]
        exact (hc.credited hprepared).counted
    _ = ((History.acts h).map (Act.shown (succeeded h.entries))).sum :=
        (hc.total_acts fun a ha => by cases a <;> first | rfl | exact ha.elim).symm
    _ = _ := shown_of_trace hc.trace _

/-- A round that is shown is one of a call of the plan. -/
theorem mem_calls (hc : Concluded p .completeInFlight result before h trace)
    (hprepared : e.prepareAllowed services r = .ok p) {s : ShownRound}
    (hs : s ∈ trace.filterMap Chunk.round?) : s.step ∈ p.plan.root.calls.map Call.name := by
  rw [rounds_of_trace hc.trace, hc.acts, List.filterMap_append, List.mem_append] at hs
  rcases hs with hs | hs
  · obtain ⟨a, ha, hround⟩ := List.mem_filterMap.mp hs
    obtain ⟨x, hx, rfl⟩ := List.mem_map.mp ha
    refine (hc.credited hprepared).own x hx s.step ?_
    generalize x.2.act = a at hround
    cases a <;> cases hround
    rfl
  · obtain ⟨a, ha, hround⟩ := List.mem_filterMap.mp hs
    have hcloses := closing_closes p result ha
    cases a <;> first | exact hcloses.elim | cases hround

end Concluded

/-- **What is counted.** Take any run of a prepared request that has ended with
a result, on a sink without chunks, where no branch is dropped: its moves may
come in any order, branches may fail or crash on its way, and between two
moves the world may change in all but what the run has shown, noted and
counted. The model calls and tool calls of its report are the rounds, and the
results in them, that its trace shows of the steps that have succeeded by its
log. They are those of the whole trace if and only if all rounds belong to
such steps, and so they are if the run has completed. -/
theorem counts_of_succeeded {M : Type} [LanguageModel M]
    (hprepared : e.prepareAllowed services r = .ok p)
    (hpolicy : e.config.fanout.failure = .completeInFlight) {environment : Environment M}
    {sink : Sink} (hsink : sink.chunks = []) {drift : World M → World M → Prop}
    (hdrift : ∀ w w', drift w w' → World.SameRecord w w') {h : History Act Act.Reply}
    {result : Except FlowError StepOutcome} {w : World M}
    (hrun : Process.Run e.config.fanout World.perform drift (.line (script p))
      (World.start environment sink p.log) h (.line (.ret result)) w) :
    (report p result w).CountsSucceeded ∧
      ∀ out, result = .ok out → (report p result w).counts.Counts (report p result w).rounds := by
  obtain ⟨_, _, -, -, -, -, -, -, -, -, hfresh⟩ := prepareAllowed_eq_ok hprepared
  obtain ⟨before, hc⟩ := concluded_of_run hsink (fun w w' hd => (hdrift w w' hd).chunks) hrun
  rw [hpolicy] at hc
  obtain ⟨begun, hdue⟩ := due_of_run (fun w w' hd => (hdrift w w' hd).log) hfresh hrun
  have hdone : succeeded w.log.steps = succeeded h.entries := succeeded_of_due hdue
  have heffort : w.counts.effort
      = (((w.sink.chunks.filterMap Chunk.round?).filter fun s =>
          succeeded w.log.steps s.step).map ShownRound.effort).sum := by
    rw [World.effort_of_run (fun w w' hd => (hdrift w w' hd).counts) hrun, hdone,
      hc.sum_counted hprepared]
    exact zero_add _
  have hcounts := RunCounts.counts_of_effort heffort
  have hiff := RunCounts.counts_iff_of_filter hcounts
  refine ⟨⟨hcounts, hiff⟩, ?_⟩
  rintro out rfl
  refine hiff.mpr fun s hs => ?_
  obtain ⟨c, hmem, hname⟩ := List.mem_map.mp (hc.mem_calls hprepared hs)
  rw [hdone, hc.entries, ← hname]
  exact Execution.step_succeeds _ p.plan.root [] before out hc.root c hmem

/-- One call succeeds in two rounds, and the other one fails in its first round,
behind a result. -/
theorem run_of_saving : ∃ p rep w, echoing.prepareAllowed emptyServices echoed = .ok p ∧
    echoing.run p .buffered savingEnvironment = (some rep, w) ∧
    rep.counts.effort = (2, 1) ∧ rep.rounds.length = 3 := by
  have hplayed : (echoing.prepareAllowed emptyServices echoed).toOption.any (fun p =>
      (echoing.run p .buffered savingEnvironment).1.any fun rep =>
        rep.counts.effort == (2, 1) && rep.rounds.length == 3) = true := by
    decide +kernel
  obtain ⟨p, hp, hany⟩ := (Option.any_eq_true ..).mp hplayed
  obtain ⟨rep, hrep, hchecks⟩ := (Option.any_eq_true ..).mp hany
  obtain ⟨hcounts, hrounds⟩ := (Bool.and_eq_true ..).mp hchecks
  exact ⟨p, rep, _, eq_ok_of_toOption hp, Prod.ext hrep rfl, eq_of_beq hcounts, eq_of_beq hrounds⟩

/-- A run whose report counts all that is shown, since it has completed, and one
whose report does not count a call that has failed. -/
theorem counts_of_succeeded_saving :
    (∃ p out, ∃ w : World Rehearsal.ScriptedModel,
      echoing.prepareAllowed emptyServices echoed = .ok p ∧
        (report p (.ok out) w).counts.Counts (report p (.ok out) w).rounds) ∧
    ∃ p rep w, echoing.prepareAllowed emptyServices echoed = .ok p ∧
      echoing.run p .buffered savingEnvironment = (some rep, w) ∧
        rep.counts.effort = (2, 1) ∧ rep.rounds.length = 3 ∧ rep.CountsSucceeded := by
  constructor
  · obtain ⟨p, w, h, out, hprepared, hrun, -⟩ := exists_run
    obtain ⟨-, hcompleted⟩ :=
      counts_of_succeeded hprepared rfl rfl (fun w _ hw => hw ▸ .refl w) hrun
    exact ⟨p, out, w, hprepared, hcompleted out rfl⟩
  · obtain ⟨p, rep, w, hprepared, hrun, hcounts, hrounds⟩ := run_of_saving
    obtain ⟨h, result, hruns, rfl⟩ := run_runs hrun
    obtain ⟨hsucceeded, -⟩ := counts_of_succeeded hprepared rfl rfl
      (fun _ _ => World.sameRecord_of_drifts) hruns
    exact ⟨p, _, w, hprepared, hrun, hcounts, hrounds, hsucceeded⟩

/-- It is not so that a report counts all rounds that it shows. -/
theorem rounds_beyond_counts :
    ¬∀ (p : Prepared) (rep : RunReport) (w : World Rehearsal.ScriptedModel),
      echoing.prepareAllowed emptyServices echoed = .ok p →
      echoing.run p .buffered savingEnvironment = (some rep, w) → rep.counts.Counts rep.rounds := by
  intro hall
  obtain ⟨p, rep, w, hprepared, hrun, hcounts, hrounds⟩ := run_of_saving
  have hmodels := (hall p rep w hprepared hrun).modelCalls
  rw [hrounds] at hmodels
  cases (congrArg Prod.fst hcounts).symm.trans hmodels

end Engine

end Ensemble
