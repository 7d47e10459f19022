import Ensemble.Proofs.Agent.Effects
import Ensemble.Proofs.Run.Entries

/-!
# Efforts

The effort of a call is how often it has asked its model, and how many
results its tools have given. Its trace shows that of each round as the
round ends (`ShownRound.effort`); the run counts that of all rounds at once,
when the call has succeeded (`effort_of_run`). What is shown by steps that
have succeeded can be read off the trace and the log together
(`shown_of_trace`).
-/

namespace Ensemble

/-- How often models were asked, and how many results tools have given. -/
abbrev Effort := Nat × Nat

namespace ShownRound

/-- The results of tools that are shown of a round. -/
def results (s : ShownRound) : List Part :=
  (s.messages.flatMap Message.content).filter Part.isToolResult

def effort (s : ShownRound) : Effort := (1, s.results.length)

theorem sum_effort (rounds : List ShownRound) :
    (rounds.map effort).sum = (rounds.length, (rounds.flatMap results).length) := by
  induction rounds with
  | nil => rfl
  | cons s rest ih =>
      rw [List.map_cons, List.sum_cons, ih, List.flatMap_cons, List.length_append]
      exact Prod.ext (Nat.add_comm ..) rfl

end ShownRound

namespace RunCounts

def effort (c : RunCounts) : Effort := (c.modelCalls, c.toolCalls)

/-- The counts are those of some rounds that are shown. -/
structure Counts (c : RunCounts) (rounds : List ShownRound) : Prop where
  modelCalls : c.modelCalls = rounds.length
  toolCalls : c.toolCalls = (rounds.flatMap ShownRound.results).length

theorem counts_of_effort {c : RunCounts} {rounds : List ShownRound}
    (h : c.effort = (rounds.map ShownRound.effort).sum) : c.Counts rounds := by
  rw [ShownRound.sum_effort] at h
  obtain ⟨hmodels, htools⟩ := Prod.mk.inj h
  exact ⟨hmodels, htools⟩

/-- Rounds of which no part is counted for the rest are all counted. -/
theorem counts_iff_of_filter {c : RunCounts} {rounds : List ShownRound} {done : ShownRound → Bool}
    (h : c.Counts (rounds.filter done)) : c.Counts rounds ↔ ∀ s ∈ rounds, done s = true := by
  constructor
  · intro hall
    exact List.length_filter_eq_length_iff.mp (h.modelCalls.symm.trans hall.modelCalls)
  · intro hall
    rwa [List.filter_eq_self.mpr hall] at h

end RunCounts

/-- Whether entries say that a step has succeeded. -/
def succeeded (es : List StepLog) (step : String) : Bool :=
  es.any fun e => e.step == step && e.status == .success

theorem succeeded_append (es es' : List StepLog) (step : String) :
    succeeded (es ++ es') step = (succeeded es step || succeeded es' step) := List.any_append

theorem succeeded_perm {es es' : List StepLog} (h : es.Perm es') : succeeded es = succeeded es' :=
  funext fun _ => h.any_eq

/-- What runs has not succeeded. -/
theorem succeeded_of_due {acts : List Act} {begun : List String} {l : RunLog}
    (h : Act.Due acts begun l) : succeeded l.steps = succeeded (acts.filterMap Act.logged?) := by
  refine (succeeded_perm h.holds.perm).trans (funext fun step => ?_)
  have hbegun : succeeded (begun.map StepLog.running) step = false := by
    simp [succeeded, StepLog.running]
  rw [succeeded_append, hbegun, Bool.or_false]

namespace Act

/-- What an act counts. -/
def counted : Act → Effort
  | .count modelCalls toolCalls => (modelCalls, toolCalls)
  | _ => 0

/-- What an act shows of some steps. -/
def shown (done : String → Bool) (a : Act) : Effort :=
  match a.round? with
  | some s => if done s.step then s.effort else 0
  | none => 0

/-- The step whose answer an act shows, or whose success it notes. -/
def credited? : Act → Option String
  | .emitFinish _ _ step .. => some step
  | .logSuccess step => some step
  | _ => none

/-- Only the note of a success leaves an entry that says so. -/
theorem eq_logSuccess {a : Act} {e : StepLog} (h : a.logged? = some e)
    (hstatus : e.status = .success) : a = .logSuccess e.step := by
  cases a <;> cases h <;> first | rfl | cases hstatus

theorem shown_congr {done done' : String → Bool} {a : Act}
    (h : ∀ step, a.credited? = some step → done step = done' step) :
    a.shown done = a.shown done' := by
  cases a with
  | emitFinish name model step messages usage reason =>
      simp only [shown, round?, h step rfl]
  | _ => rfl

theorem sum_shown (done : String → Bool) (acts : List Act) :
    (acts.map (shown done)).sum
      = (((acts.filterMap round?).filter fun s => done s.step).map ShownRound.effort).sum := by
  induction acts with
  | nil => rfl
  | cons a rest ih =>
      rw [List.map_cons, List.sum_cons, ih, List.filterMap_cons, shown]
      cases a.round? with
      | none => exact zero_add _
      | some s => cases hs : done s.step <;> simp [hs]

end Act

namespace History

variable {h : History Act Act.Reply}

theorem total_acts (f : Act → Effort) (h : History Act Act.Reply) :
    h.total (fun x => f x.act) = ((acts h).map f).sum := congrArg List.sum (List.map_map ..).symm

theorem exists_of_succeeded {step : String} (hs : succeeded h.entries step = true) :
    ∃ x ∈ h, x.2.act = .logSuccess step := by
  obtain ⟨e, he, hsuccess⟩ := List.any_eq_true.mp hs
  obtain ⟨hstep, hstatus⟩ := (Bool.and_eq_true ..).mp hsuccess
  obtain ⟨a, ha, hlogged⟩ := List.mem_filterMap.mp he
  obtain ⟨x, hx, rfl⟩ := List.mem_map.mp ha
  refine ⟨x, hx, ?_⟩
  rw [Act.eq_logSuccess hlogged (eq_of_beq hstatus), eq_of_beq hstep]

theorem succeeded_of_mem {x : List Nat × Exchange Act Act.Reply} {step : String} (hx : x ∈ h)
    (hact : x.2.act = .logSuccess step) : succeeded h.entries step = true := by
  refine List.any_eq_true.mpr ⟨{ step, status := .success, error := none }, ?_, by simp⟩
  exact List.mem_filterMap.mpr ⟨x.2.act, List.mem_map_of_mem hx, by rw [hact]; rfl⟩

/-- What has succeeded has done so in one of the branches. -/
theorem Within.succeeded_iff {n : Nat} (hwithin : h.Within n) {step : String} :
    succeeded h.entries step = true ↔ ∃ i < n, succeeded (h.below i).entries step = true := by
  simp only [succeeded, List.any_eq_true, hwithin.mem_entries]
  constructor
  · rintro ⟨e, ⟨i, hi, he⟩, hsuccess⟩
    exact ⟨i, hi, e, he, hsuccess⟩
  · rintro ⟨i, hi, e, he, hsuccess⟩
    exact ⟨e, ⟨i, hi, he⟩, hsuccess⟩

end History

/-- What acts show of some steps can be read off their trace. -/
theorem shown_of_trace {trace : List Chunk} {acts : List Act}
    (htrace : trace.map Chunk.act = acts.filter Act.writes) (done : String → Bool) :
    (acts.map (Act.shown done)).sum = (((trace.filterMap Chunk.round?).filter fun s =>
      done s.step).map ShownRound.effort).sum := by
  rw [rounds_of_trace htrace, Act.sum_shown]

namespace World

variable {M : Type} [LanguageModel M]

theorem perform_effort (a : Act) (w : World M) :
    (perform a w).2.counts.effort = w.counts.effort + a.counted := by
  cases a with
  | count modelCalls toolCalls => rfl
  | invoke tool args context =>
      exact congrArg RunCounts.effort (invoke_untouched tool args context w).counts
  | recordSession session agent delta =>
      exact congrArg RunCounts.effort (recordSession_untouched session agent delta w).counts
  | finalize session => exact congrArg RunCounts.effort (finalize_untouched session w).counts
  | _ => rfl

/-- The effort that a run has counted is that of its acts. -/
theorem effort_of_run {β : Type} {config : FanoutConfig} {drift : World M → World M → Prop}
    {p₀ p : Process Act Act.Reply β} {w₀ w : World M} {h : History Act Act.Reply}
    (hdrift : ∀ w w', drift w w' → w'.counts = w.counts)
    (hrun : Process.Run config perform drift p₀ w₀ h p w) :
    w.counts.effort = w₀.counts.effort + h.total fun x => x.act.counted := by
  refine hrun.along
    (fun h w => w.counts.effort = w₀.counts.effort + h.total fun x => x.act.counted) rfl ?_ ?_
  · intro h w w' hw hd
    rw [hdrift w w' hd, hw]
  · intro h w task a hw
    rw [perform_effort, hw, History.total_append, History.total_cons, add_assoc]
    rfl

end World

end Ensemble
