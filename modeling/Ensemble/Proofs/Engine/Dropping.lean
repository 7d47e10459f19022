import Ensemble.Proofs.Engine.Logging
import Ensemble.Proofs.Execution.Dropping

/-!
# Dropped calls in the log of a run

Nothing closes the entry of a call that was on its way when its branch was
dropped: the branch gets an entry of its own that says that it was left
out, and the entry of the call goes on running (`running_beside_left_out`).
What holds of every run is that such entries are nowhere else: a call whose
entry runs when the run has ended stands at or below a step with an entry
that says that it was left out (`running_below_left_out`).
-/

namespace Ensemble

/-- Entries are those that are due to a history, and one that runs for each call
in `begun`, which has started and has not ended; it stands at or below a step
of the tree that is noted as left out. -/
structure Unclosed (root : Step) (h : History Act Act.Reply) (begun : List String)
    (es : List StepLog) : Prop where
  entries : es.Perm (h.entries ++ begun.map StepLog.running)
  count : ∀ name, begun.count name + h.count (Act.leaves name) = h.count (Act.enters name)
  leftOut : ∀ name ∈ begun, LeftOutAbove root name es

/-- The entries that run are those of the calls that have not ended. -/
theorem Unclosed.running {root : Step} {h : History Act Act.Reply} {begun : List String}
    {l : RunLog} (hu : Unclosed root h begun l.steps) : l.summary.running = begun.length := by
  have hentries : h.entries.countP (fun e => e.status == .running) = 0 := by
    refine List.countP_eq_zero.mpr fun e he => ?_
    obtain ⟨a, -, ha⟩ := List.mem_filterMap.mp he
    simpa using Act.ended_of_logged? ha
  have hbegun : (begun.map StepLog.running).countP (fun e => e.status == .running)
      = begun.length := by
    rw [List.countP_map]
    exact List.countP_eq_length.mpr fun _ _ => rfl
  calc l.summary.running = (h.entries ++ begun.map StepLog.running).countP
        (fun e => e.status == .running) := hu.entries.countP_eq _
    _ = begun.length := by rw [List.countP_append, hentries, hbegun, Nat.zero_add]

namespace Engine

/-- A call that is open when a run has ended with a result stands at or below a
step that was left out. -/
theorem script_drops {p : Prepared} {policy : FailurePolicy} {h : History Act Act.Reply}
    {result : Except FlowError StepOutcome}
    (he : (script p).Ends policy h (.ofResult result)) {name : String} (ho : h.IsOpen name) :
    LeftOutAbove p.plan.root name h.entries := by
  rcases Script.ends_andThen he with ⟨-, hcrash⟩ | ⟨before, later, result', rfl, hroot, hlast⟩
  · cases result <;> cases hcrash
  have hcloses : ∀ x ∈ later, IsClosing x.2.act := by
    obtain ⟨q, hq, -⟩ := hlast
    exact (conclude_closes p result').of_reaches hq
  have hquiet : later.Settled := History.settled_of_isQuiet fun x hx =>
    Act.isQuiet_of_logs (logs_of_isClosing (hcloses x hx))
  rw [entries_of_isClosing hcloses]
  exact Execution.step_drops p.plan.root [] before result' hroot name
    (ho.of_append.resolve_right (hquiet.not_isOpen name))

/-- **What goes on running.** Take any run of a prepared request that has ended
with a result, on a log without entries and under either policy: its moves
may come in any order, branches may fail, crash or be dropped on its way, and
between two moves the world may change in all but the log. Its log has the
entries that are due to what it has performed and one that runs for each call
that has started and has not ended, which stands at or below a step that the
log notes as left out. So if nothing was left out, nothing runs. -/
theorem running_below_left_out {M : Type} [LanguageModel M] (p : Prepared) (config : FanoutConfig)
    (drift : World M → World M → Prop) (hdrift : ∀ w w', drift w w' → w'.log = w.log)
    {w₀ w : World M} (hfresh : w₀.log.steps = []) {h : History Act Act.Reply}
    {result : Except FlowError StepOutcome}
    (hrun : Process.Run config World.perform drift (.line (script p)) w₀ h
      (.line (.ret result)) w) :
    ∃ begun, Unclosed p.plan.root h begun w.log.steps ∧
      w.log.summary.running = begun.length ∧
      ((∀ e ∈ w.log.steps, e.status ≠ .skipped) → w.log.summary.running = 0) := by
  have hends : (script p).Ends config.failure h (.ofResult result) :=
    Script.ends_ofResult.mpr hrun.reaches
  obtain ⟨begun, hdue⟩ := due_of_run hdrift hfresh hrun
  have hcount : ∀ name,
      begun.count name + h.count (Act.leaves name) = h.count (Act.enters name) := by
    intro name
    rw [History.count_eq_countP, History.count_eq_countP]
    exact hdue.count name
  have hleftOut : ∀ name ∈ begun, LeftOutAbove p.plan.root name w.log.steps := by
    intro name hmem
    have hpos := List.count_pos_iff.mpr hmem
    have hopen : h.IsOpen name := by
      have := hcount name
      unfold History.IsOpen
      omega
    exact (script_drops hends hopen).mono fun e he =>
      hdue.holds.perm.mem_iff.mpr (List.mem_append_left _ he)
  have hunclosed : Unclosed p.plan.root h begun w.log.steps := ⟨hdue.holds.perm, hcount, hleftOut⟩
  refine ⟨begun, hunclosed, hunclosed.running, fun hnone => ?_⟩
  rw [hunclosed.running, List.length_eq_zero_iff]
  refine List.eq_nil_iff_forall_not_mem.mpr fun name hmem => ?_
  obtain ⟨_, _, -, -, t, -, hskip⟩ := hleftOut name hmem
  exact hnone _ hskip rfl

/-! ## A call that is dropped -/

/-- When a branch fails its siblings are dropped. -/
def cancelling : Engine :=
  { echoing with config := { Config.default with failure := .cancelSiblings } }

/-- The model errs when it is asked first, but not before it has been asked
again, and takes its time over the second answer. -/
def slowEnvironment : Environment Rehearsal.ScriptedModel :=
  let busy := { Rehearsal.Reply.plain with error := some (.request "busy"), delay := 10 }
  { silentEnvironment with
    model := { replies := [("", [busy, { Rehearsal.Reply.plain with delay := 1000 }])] } }

/-- Whether an entry runs beside one that says that its step was left out. -/
def hasOpenSkip (l : RunLog) : Bool :=
  l.steps.any fun e => e.status == .running && l.steps.contains (.leftOut e.step)

/-- What a run leaves behind if one branch fails while the other one waits for
an answer: the entries of both calls, one that says that the second branch was
left out although its call still runs, and that of the call behind them. -/
def LeavesOpen (rep : RunReport) : Prop :=
  rep.log.steps.map StepLog.status = [.failed, .running, .skipped, .skipped] ∧
    rep.log.summary.running = 1 ∧ hasOpenSkip rep.log = true

instance (rep : RunReport) : Decidable (LeavesOpen rep) := inferInstanceAs (Decidable (_ ∧ _ ∧ _))

theorem run_of_slow : ∃ p rep w, cancelling.prepareAllowed emptyServices echoed = .ok p ∧
    p.log.steps = [] ∧ cancelling.run p .buffered slowEnvironment = (some rep, w) ∧
    LeavesOpen rep := by
  have hplayed : (cancelling.prepareAllowed emptyServices echoed).toOption.any (fun p =>
      p.log.steps == [] &&
        (cancelling.run p .buffered slowEnvironment).1.any fun rep => LeavesOpen rep) = true := by
    decide +kernel
  obtain ⟨p, hp, hchecks⟩ := (Option.any_eq_true ..).mp hplayed
  obtain ⟨hfresh, hany⟩ := (Bool.and_eq_true ..).mp hchecks
  obtain ⟨rep, hrep, hleaves⟩ := (Option.any_eq_true ..).mp hany
  exact ⟨p, rep, _, eq_ok_of_toOption hp, eq_of_beq hfresh, Prod.ext hrep rfl,
    of_decide_eq_true hleaves⟩

/-- A call whose entry runs stands below a branch that was left out. -/
theorem running_below_left_out_slow :
    ∃ (p : Prepared) (w : World Rehearsal.ScriptedModel) (h : History Act Act.Reply)
      (begun : List String), cancelling.prepareAllowed emptyServices echoed = .ok p ∧
        begun.length = 1 ∧ Unclosed p.plan.root h begun w.log.steps := by
  obtain ⟨p, rep, w, hprepared, hfresh, hrun, -, hrunning, -⟩ := run_of_slow
  obtain ⟨h, result, hruns, rfl⟩ := run_runs hrun
  obtain ⟨begun, hunclosed, hcount, -⟩ := running_below_left_out p cancelling.config.fanout _
    (fun _ _ hd => (World.sameRecord_of_drifts hd).log) hfresh hruns
  exact ⟨p, w, h, begun, hprepared, hcount.symm.trans hrunning, hunclosed⟩

/-- Under the policy that drops siblings it is not so that nothing runs when a
run has returned, nor that no step has an entry that runs and one that says
that it was left out. -/
theorem running_beside_left_out :
    ¬∀ (p : Prepared) (rep : RunReport) (w : World Rehearsal.ScriptedModel),
      cancelling.prepareAllowed emptyServices echoed = .ok p →
      cancelling.run p .buffered slowEnvironment = (some rep, w) →
      rep.log.summary.running = 0 ∨ hasOpenSkip rep.log = false := by
  intro hclosed
  obtain ⟨p, rep, w, hprepared, -, hrun, -, hrunning, hopen⟩ := run_of_slow
  rcases hclosed p rep w hprepared hrun with hnone | hnone
  · cases hrunning.symm.trans hnone
  · cases hopen.symm.trans hnone

end Engine

end Ensemble
